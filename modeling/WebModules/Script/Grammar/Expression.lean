import WebModules.Script.Grammar.Class

/-!
Expressions.
-/

namespace WebModules.Script.Clause

/-- One expression, or several separated by commas. -/
def expressionBody : Clause Tree := do
  let first ← mark
  let leading ← assignment
  let others ← collect do
    if ← eat .comma then return some (← assignment) else return none
  if others.isEmpty then return leading else node .sequence first (leading :: others)

/-- An expression, or one after dots. -/
def spreadable : Clause Tree := do
  let first ← mark
  if ← eat .ellipsis then node .spread first [← withIn true assignment] else assignment

/-- The arguments of a call between parentheses. -/
def arguments : Clause (List Tree) :=
  within (fun c => { c with colonExpected := false }) do
    expect .openParen
    let found ← repeating (fun (found : List Tree) => do
      if (← isFinish) || (← isSign .closeParen) then return .inr found
      else
        if !found.isEmpty then expect .comma
        if ← isSign .closeParen then return .inr found
        else return .inl ((← withIn true spreadable) :: found)) []
    expect .closeParen
    return found.reverse

def array : Clause Tree := do
  let first ← mark
  take
  let found ← repeating (fun (found : List Tree) => do
    if ← isSign .closeBracket then return .inr found
    else if ← eat .comma then return .inl (Tree.node .hole 0 0 [] :: found)
    else
      let element ← withIn true spreadable
      unless ← isSign .closeBracket do
        let comma ← mark
        expect .comma
        if ← isSign .closeBracket then
          note fun n => { n with trailingCommas := (first, comma) :: n.trailingCommas }
      return .inl (element :: found)) []
  expect .closeBracket
  node .array first found.reverse

/-- A property of an object expression that is a function. -/
def propertyFunction (first : Nat) (key : Key) (kind : FunctionKind) (wanted : ParameterRule) :
    Clause Tree := do
  let function ← within (fun c => { c with classField := false })
    (rule (.function first kind wanted))
  node .methodProperty first (key.parts ++ function.children)

/-- Whether something that can follow a key stands here. -/
def isPropertyTail (key : Key) : Clause Bool := do
  match ← current with
  | .word _ | .string | .number => return true
  | .sign .closeBrace => return match key with
    | .word _ => true
    | _ => false
  | .sign s => return [.openParen, .openBracket, .colon, .comma, .question, .assign, .times,
      .less].contains s
  | _ => return false

/-- A property that is a function after the word that introduces it. -/
def wordFunction (first : Nat) (modified : Bool) (name : String) : Clause Tree := do
  if modified then report (.token first) .modifierOnAccessor
  let generator ← if name == "async" then eat .times else pure false
  let valueFirst ← mark
  let value ← propertyKey
  let wanted : ParameterRule := match name with
    | "get" => .getter valueFirst
    | "set" => .setter valueFirst
    | _ => .any
  propertyFunction first value { async := name == "async", generator := generator } wanted

/-- A property whose key is a word that no value follows. -/
def wordProperty (first keyFirst : Nat) (modified : Bool) (name : String) : Clause Tree := do
  let number ← mark
  if ← eat .question then report (.token number) .optionalMember
  if ← isOneOf [.assign, .comma, .closeBrace] then
    if isReserved name then report (.token keyFirst) .reservedShorthand
    if ← eat .assign then
      let value ← withIn true assignment
      node (.initializedShorthand name) first [value]
    else node (.shorthand name) first []
  else if ["get", "set", "async"].contains name then wordFunction first modified name
  else
    unexpected
      "... , *,  (, [, :, , ?, =, an identifier, public, protected, private, readonly, <."

/-- A property of an object expression after its key. -/
def propertyTail (first keyFirst : Nat) (modified : Bool) (key : Key) : Clause Tree := do
  if !(← isPropertyTail key) then
    report .here .semicolonExpected
    let value ← node .invalid first []
    node .property first (key.parts ++ [value])
  else if ← eat .colon then
    let value ← withIn true assignment
    node .property first (key.parts ++ [value])
  else if ← isOneOf [.openParen, .less] then propertyFunction first key {} .any
  else
    match key with
    | .word name => wordProperty first keyFirst modified name
    | _ => unexpected "identifier"

def property : Clause Tree := do
  let first ← mark
  if ← eat .ellipsis then
    node .spread first [← withIn true assignment]
  else if ← eat .times then
    let key ← propertyKey
    propertyFunction first key { generator := true } .any
  else
    let modified ← eatParameterModifier
    let keyFirst ← mark
    let key ← propertyKey
    propertyTail first keyFirst modified key

def object : Clause Tree := do
  let first ← mark
  take
  let (found, comma) ← within (fun c => { c with colonExpected := false }) (properties property)
  if let some comma := comma then
    note fun n => { n with trailingCommas := (first, comma) :: n.trailingCommas }
  node .object first found

/-- A template, as the parts of the expression that it belongs to. -/
def template (tagged : Bool) : Clause (List Tree) :=
  templateOf tagged (withIn true expression)

/-- Reports the flags of the regular expression `number` that are unknown or repeated. -/
def reportRegexFlags (number : Nat) (flags : List Char) : Clause Unit := do
  let known := ['d', 'g', 'i', 'm', 's', 'u', 'v', 'y']
  if flags.any fun c => !known.contains c then report (.token number) .unknownRegexFlags
  match flags.find? fun c => known.contains c && 1 < flags.count c with
  | some flag => report (.token number) (.duplicateRegexFlag flag)
  | none => return ()

def regex : Clause Tree := do
  let first ← mark
  rescan .regex
  if (← current) == .malformed then failMalformed false
  let flags ← regexFlags
  take
  reportRegexFlags first flags
  node .literal first []

/-- The items between parentheses that have been read so far, when it is not yet known whether they
are the parameters of an arrow. -/
structure Items where
  /-- Whether the item is already known to be a parameter. -/
  isParameter : Bool
  tree : Tree
  deriving Inhabited

/-- A conditional expression whose test has been read. -/
def conditionalTail (first : Nat) (test : Tree) : Clause Tree := do
  expect .question
  let positive ← within (fun c =>
    { c with conditional := true, colonExpected := true, inOperator := true }) assignment
  expect .colon
  let negative ← within (fun c => { c with conditional := true, colonExpected := false })
    assignment
  node .conditional first [test, positive, negative]

/-- An expression as the target of an assignment: a reader meets only its parts. -/
def simpleTarget (target : Tree) : Clause Tree := do
  match target.shape with
  | .variable _ | .member | .superMember | .optionalMember | .optionalCall | .parenthesized
  | .asType | .satisfiesType | .nonNull | .typeAssertion | .instantiation | .invalid =>
    return target.reshape (.assigned target.shape)
  | _ => fail (.token target.first) .invalidTarget

/-- A pattern as the target of an assignment. -/
def patternTarget : Tree → Clause Tree
  | .node .targetPattern _ _ [target] => simpleTarget target
  | pattern => return pattern

/-- The assignment that an expression starts, or the expression. -/
def assignmentTail (first : Nat) (target : Tree) : Clause Tree := do
  match ← current with
  | .sign .assign =>
    let left ← patternTarget (← rule (.asPattern true false target))
    take
    let value ← assignment
    node (.assignment true) first [left, value]
  | .sign (.assignWith _) =>
    checkTarget target
    let left ← simpleTarget target
    take
    let value ← assignment
    node (.assignment false) first [left, value]
  | _ => return target

/-- An item between parentheses without what marks it as a parameter. -/
def itemStart (first : Nat) : Clause Tree := do
  let isSpread ← isSign .ellipsis
  if (← isName) || (isSpread && (← isAheadName)) then
    if ← eat .ellipsis then
      let inner ← withIn true (rule .binary)
      node .spread first [inner]
    else
      let expression ← rule .binary
      assignmentTail first expression
  else withIn true spreadable

/-- Whether the question mark that may be next makes an item an optional parameter. -/
def marksOptional : Clause Bool := do
  if ← isSign .question then
    return (← isAheadSign .comma) || (← isAheadSign .colon) || (← isAheadSign .closeParen)
      || (← isAheadSign .assign)
  else return false

/-- Reads the question mark of an optional parameter. -/
def takeOptional (first : Nat) (isSpread : Bool) (parameter : Tree) : Clause Unit := do
  take
  if isSpread then report (.token ((← mark) - 1)) .restOptional
  match parameter.shape with
  | .variable _ | .object | .array => return
  | _ => fail (.token first) .optionalPattern

/-- An item as a parameter, with its type and default. -/
def itemAsParameter (first : Nat) (isSpread : Bool) (inner : Tree) : Clause Tree := do
  let pattern ← rule (.asPattern false false inner)
  let pattern ← if isSpread then node .restPattern first [pattern] else pure pattern
  let pattern ← withParts pattern (← annotation?)
  if ← eat .assign then
    let value ← assignment
    node .initializedPattern first [pattern, value]
  else return pattern

/-- An item between parentheses: an argument, or a parameter of an arrow. -/
def parenthesizedItem : Clause Items := do
  let first ← mark
  note fun n => { n with arrowStart := some first }
  let modified ← eatParameterModifier
  let item ← itemStart first
  let isSpread := item.shape == .spread
  let inner := if isSpread then item.children.headD item else item
  let isOptional ← marksOptional
  if isOptional then takeOptional first isSpread inner
  let isTest ← if isOptional || isSpread then pure false else isSign .question
  let item ← if isTest then conditionalTail first item else pure item
  let isParameter ← if isOptional then pure true else isSign .colon
  let item ← if isParameter then itemAsParameter first isSpread inner else pure item
  if modified then report (.token first) .propertyOutsideConstructor
  return ⟨isParameter, item⟩

/-- The items between parentheses, and the comma after the last of them if there is one. -/
def parenthesizedItems : Clause (List Items × Option Nat) := do
  expect .openParen
  let (found, comma) ← repeating (fun (state : List Items × Option Nat) => do
    let (found, comma) := state
    if ← isSign .closeParen then return .inr (found, comma)
    else
      let item ← parenthesizedItem
      if ← isSign .closeParen then return .inl (item :: found, none)
      else
        let comma ← mark
        expect .comma
        if ← isSign .closeParen then return .inl (item :: found, some comma)
        else return .inl (item :: found, none)) ([], none)
  expect .closeParen
  return (found.reverse, comma)

/-- The last item between parentheses as a parameter of an arrow. -/
def lastParameter (comma : Option Nat) : Items → Clause Tree
  | ⟨true, parameter⟩ => do
    if parameter.shape == .restPattern then reportAll .commaAfterRest comma.toList
    return parameter
  | ⟨false, .node .spread first _ [inner]⟩ => do
    if inner.shape == .assignment true then report (.token first) .restInitializer
    reportAll .commaAfterRest comma.toList
    let pattern ← rule (.asPattern false false inner)
    return .node .restPattern inner.first inner.stop [pattern]
  | ⟨false, item⟩ => rule (.asPattern false false item)

/-- The items between parentheses as the parameters of an arrow. -/
def itemsAsParameters (comma : Option Nat) : List Items → Clause (List Tree)
  | [] => return []
  | [item] => do return [← lastParameter comma item]
  | ⟨isParameter, item⟩ :: others => do
    if item.shape == .spread || item.shape == .restPattern then
      report (.token item.first) .restNotLast
      itemsAsParameters comma others
    else
      let parameter ← if isParameter then pure item else rule (.asPattern false false item)
      return parameter :: (← itemsAsParameters comma others)

/-- The parameters and body of an arrow whose items have been read, and whether the body is a
block. -/
def arrowTail (first : Nat) (async : Bool) (items : List Items) (comma : Option Nat)
    (result : List Tree) : Clause (Tree × Bool) := do
  let parameters ← itemsAsParameters comma items
  reportAll .unbindable (Tree.unbindableIn parameters)
  let body ← rule (.arrowBody async (areSimple parameters))
  return (← node .arrow first (parameters ++ [body] ++ result), body.shape == .group)

/-- Gives up where a parameter is among the items of parentheses that start no arrow. -/
def checkNoParameter (items : List Items) : Clause Unit :=
  match items.find? Items.isParameter with
  | some item => fail (.token item.tree.first) .notAnExpression
  | none => return

/-- Gives up where an item between parentheses that start no arrow stands after dots. -/
def checkNoSpread (items : List Tree) : Clause Unit :=
  match items.find? fun t => t.shape == .spread with
  | some item => fail (.token item.first) .spreadInParens
  | none => return

/-- What parentheses that start no arrow hold. -/
def parenthesized (first : Nat) (items : List Items) : Clause Tree := do
  checkNoParameter items
  let all := items.map Items.tree
  match all with
  | [] => fail (.token first) .emptyParens
  | [item] =>
    checkNoSpread all
    node .parenthesized first [item]
  | leading :: _ =>
    checkNoSpread all
    let stop := (all.getLast?.map Tree.stop).getD leading.stop
    node .parenthesized first [.node .sequence leading.first stop all]

/-- An arrow with the type of its result in a branch of a conditional expression, whose colon may
as well be the one that is next. -/
def conditionalArrow? (first : Nat) (async : Bool) (items : List Items) (comma : Option Nat) :
    Clause (Option Tree) := do
  let surroundings ← context
  if surroundings.conditional && (← isSign .colon) then
    attempt do
      let result ← rule (.result .colon)
      expect .arrow
      let (arrow, _) ← arrowTail first async items comma [result]
      if surroundings.colonExpected && !(← isSign .colon) then unexpected "fail"
      return some arrow
  else return none

/-- The type of the result of an arrow. -/
def arrowResult? : Clause (Option Tree) := do
  if !(← context).colonExpected && (← isSign .colon) then
    attempt do
      let result ← rule (.result .colon)
      unless ← isSign .arrow do unexpected "fail"
      return some result
  else return none

/-- Whether the next token is a sign that joins two operands. -/
def isBinarySign : Clause Bool := do
  match ← current with
  | .sign s => return s.isBinary
  | _ => return false

/-- An arrow whose items and result type have been read. -/
def parenthesizedArrow (first : Nat) (async : Bool) (items : List Items) (comma : Option Nat)
    (result : List Tree) : Clause Tree := do
  let (arrow, isBlock) ← arrowTail first async items comma result
  let isOperand ← if isBlock then isBinarySign else pure false
  if isOperand then
    report .here .semicolonExpected
    let tail ← rule (.binaryTail arrow 0)
    unless ← isEnd do report .here .semicolonExpected
    return tail
  else return arrow

/-- Complains about the shorthands with an initializer of an expression that is no pattern. -/
def reportInitialized : Tree → Clause Unit
  | .node .object _ _ properties =>
    reportAll .initializedShorthand ((properties.filter fun p =>
      match p.shape with
      | .initializedShorthand _ => true
      | _ => false).map Tree.first)
  | _ => return

/-- What parentheses that start no arrow hold, or a call of `async` with that. -/
def parenthesizedOrCall (first : Nat) (async : Bool) (items : List Items) : Clause Tree := do
  items.forM fun item => reportInitialized item.tree
  if async then
    checkNoParameter items
    let callee := Tree.node (.variable "async") first (first + 1) []
    node .call first (callee :: items.map Items.tree)
  else parenthesized first items

/-- An expression between parentheses, an arrow, or, where `async` is the word before the
parenthesis, a call of a function of that name. -/
def parenthesizedOrArrow (arrowAllowed : Bool) (async : Option Nat) : Clause Tree := do
  let here ← mark
  let first := async.getD here
  let (items, comma) ← within (fun c =>
    { c with colonExpected := false, inOperator := true }) parenthesizedItems
  (conditionalArrow? first async.isSome items comma).otherwise do
    let result ← arrowResult?
    if items.any Items.isParameter || result.isSome || (← isSign .arrow) then
      if ← lineBreak then fail (.token first) .lineBreakBeforeArrow
      unless arrowAllowed do fail (.token first) .arrowNotHere
      expect .arrow
      parenthesizedArrow first async.isSome items comma result.toList
    else parenthesizedOrCall first async.isSome items

/-- An expression that begins with a name. -/
def nameOrArrow (first : Nat) (arrowAllowed : Bool) : Clause Tree := do
  let name ← identifier (!(← context).generator)
  let isAsyncArrow ← if arrowAllowed && name == "async" && !(← lineBreak) then isName
    else pure false
  if isAsyncArrow then
    let surroundings ← context
    let isLoopTarget ← if surroundings.loopHead && (← isWord "of") then do
        pure !(← isAheadSign .arrow)
      else pure false
    if isLoopTarget then
      unless surroundings.awaitLoopHead do report (.token first) .asyncLoopTarget
      node (.variable name) first []
    else
      let parameter ← boundName
      if parameter.shape == .boundName "as" && !(← isSign .arrow) then
        let inner := Tree.node (.variable name) first (first + 1) []
        node .asType first [inner, ← inType type]
      else
        expect .arrow
        let body ← rule (.arrowBody true true)
        node .arrow first [parameter, body]
  else
    let isArrow ← if arrowAllowed && !(← lineBreak) then eat .arrow else pure false
    if isArrow then
      if isUnbindable name then report (.token first) .unbindable
      let parameter := Tree.node (.boundName name) first (first + 1) []
      let body ← rule (.arrowBody false true)
      node .arrow first [parameter, body]
    else node (.variable name) first []

/-- An expression without operators, member accesses and calls. -/
def primary : Clause Tree := do
  let first ← mark
  let arrowAllowed := (← notes).arrowStart == some first
  let named : Clause Tree := do
    if (← isWord "let") || (← isName) then nameOrArrow first arrowAllowed
    else fail .here .expressionExpected
  match ← current with
  | .word "this" =>
    take
    node .this first []
  | .word "async" =>
    if (← isAheadWord "function") && !(← lineBreakAhead) then
      take
      rule (.namedFunction (some first) true false)
    else if arrowAllowed && (← isAheadSign .openParen) && !(← lineBreakAhead) then
      take
      parenthesizedOrArrow arrowAllowed (some first)
    else named
  | .word "function" => rule (.namedFunction none true false)
  | .word "class" => rule (.classTail first false)
  | .word "null" | .word "true" | .word "false" | .number | .bigint =>
    take
    node .literal first []
  | .string => do node .string (← stringToken) []
  | .sign .divide | .sign (.assignWith .divide) => regex
  | .sign .openBracket => array
  | .sign .openBrace => rule .object
  | .sign .openParen => parenthesizedOrArrow arrowAllowed none
  | .sign .backtick =>
    let parts ← template false
    node .template first parts
  | .sign .hash =>
    let _ ← hashedName
    node .privateName first []
  | _ => named

/-- The string token that a call of `import` names a module by. -/
def importedLiteral? : List Tree → Option Nat
  | .node .string number _ _ :: _ => some number
  | _ => none

/-- A call with its arguments and the type arguments before them. -/
def callNode (first : Nat) (callee : Callee) (arguments generics : List Tree) : Clause Tree := do
  match callee with
  | .expression callee =>
    if callee.isOptionalChain then node .optionalCall first (callee :: arguments ++ generics)
    else node .call first (callee :: arguments ++ generics)
  | .superKeyword => node .call first (arguments ++ generics)
  | .importKeyword =>
    node (.importCall (importedLiteral? arguments)) first (arguments ++ [.ofParts generics])

/-- The arguments of a call, and the call with them. -/
def call (first : Nat) (callee : Callee) (generics : List Tree) : Clause Tree := do
  let arguments ← rule .arguments
  callNode first callee arguments generics

/-- A template after the expression that tags it. -/
def taggedTemplate (first : Nat) (tag : Tree) (generics : List Tree) : Clause Tree := do
  let parts ← template true
  if tag.shape == .optionalMember || tag.shape == .optionalCall then
    report (.token first) .optionalTemplate
  node .taggedTemplate first (tag :: generics ++ parts)

/-- An arrow after `async` and its type parameters. -/
def genericAsyncArrow? (first : Nat) : Clause (Option Tree) := do
  let head ← attempt do
    let generics ← rule .typeParameters
    expect .openParen
    let parameters ← rule .parameters
    expect .closeParen
    let result ← result?
    expect .arrow
    return some (parameters, generics :: result)
  match head with
  | none => return none
  | some (parameters, types) =>
    within (fun c => { c with async := true, generator := false }) do
      let body ← rule (.arrowBody true (areSimple parameters))
      return some (← node .arrow first (parameters ++ body :: types))

/-- The number of the token that an expression consists of if that is the word `async`. -/
def asyncWord? : Callee → Option Nat
  | .expression (.node (.variable "async") number _ _) => some number
  | _ => none

/-- The arrow that `async` with type parameters after it starts, if it does. -/
def asyncArrow? (first : Nat) (callee : Callee) (noCall : Bool) :
    Clause (Option (Tree × Bool)) := do
  let word := asyncWord? callee
  if !noCall && word.isSome && (← notes).arrowStart == word && !(← lineBreak) then
    match ← genericAsyncArrow? first with
    | some arrow => return some (arrow, true)
    | none => return none
  else return none

/-- A call, a tagged template or an instantiation with the type arguments that are next. -/
def genericLink (first : Nat) (callee : Callee) (noCall : Bool) : Clause (Tree × Bool) := do
  let generics ← rule .typeArguments
  if !noCall && (← isSign .openParen) then
    return (← call first callee [generics], true)
  else
    match callee with
    | .expression tree =>
      if ← isSign .backtick then return (← taggedTemplate first tree [generics], true)
      else if (← isSign .assign) || (← isWord "as") || (← isWord "satisfies") then
        return (← node .instantiation first [tree, generics], false)
      else unexpected "( or `"
    | _ => unexpected "( or `"

/-- A call, a tagged template or an instantiation with type arguments, and whether more can
follow. -/
def genericSubscript? (first : Nat) (callee : Callee) (noCall : Bool) :
    Clause (Option (Tree × Bool)) :=
  attempt do
    return some (← (asyncArrow? first callee noCall).otherwise (genericLink first callee noCall))

/-- A member of an expression, named or computed, with type arguments after it if these end an
expression. -/
def memberNode (first : Nat) (callee : Callee) (optional : Bool) (index : List Tree) :
    Clause Tree := do
  let stop ← mark
  let generics ← typeArguments?
  match callee with
  | .importKeyword => fail .here .importNotHere
  | .superKeyword =>
    if optional then fail .here .superNotHere
    return .node .superMember first stop index
  | .expression object =>
    let shape := if optional || object.isOptionalChain then Shape.optionalMember else .member
    let tree := Tree.node shape first stop (object :: index)
    if generics.isEmpty then return tree else node .instantiation first (tree :: generics)

/-- Reads the question mark of an optional access. -/
def eatOptional : Clause Bool := do
  if ← isSign .question then
    let dot ← isAheadSign .dot
    if dot then take
    return dot
  else return false

/-- Reads the bracket that opens a computed access, and the dot before it if that is optional. -/
def eatIndex (optional : Bool) : Clause Bool := do
  if optional && (← isSign .dot) && (← isAheadSign .openBracket) then
    take
    take
    return true
  else eat .openBracket

/-- Whether a call follows; reads the dot before it if that is optional. -/
def eatCallDot (optional noCall : Bool) : Clause Bool := do
  if optional && (← isSign .dot) && ((← isAheadSign .openParen) || (← isAheadSign .less)) then
    take
    return true
  else return !noCall && (← isSign .openParen)

/-- An expression that is said not to be null. -/
def nonNull (first : Nat) : Callee → Clause Tree
  | .expression tree => do
    take
    node .nonNull first [tree]
  | .superKeyword => do
    take
    fail .here (.nonNullNotHere "super")
  | .importKeyword => do
    take
    fail .here (.nonNullNotHere "import")

/-- A call after its dot, if it has one. -/
def callLink (first : Nat) (callee : Callee) (optional : Bool) : Clause Tree := do
  let generics ← if ← isSign .less then do pure [← rule .typeArguments] else pure []
  if optional then
    let arguments ← rule .arguments
    match callee with
    | .expression tree => node .optionalCall first (tree :: arguments ++ generics)
    | _ => fail .here .superCallOptional
  else call first callee generics

/-- A named access after its dot. -/
def memberLink (first : Nat) (callee : Callee) (optional : Bool) : Clause Tree := do
  if ← isSign .hash then
    let _ ← hashedName
    if let .superKeyword := callee then fail .here .superCallNotHere
  else
    let _ ← anyWord
  memberNode first callee optional []

/-- A template after an expression, or the end of what follows the expression. -/
def templateLink (first : Nat) (callee : Callee) (noCall : Bool) : Clause (Tree × Bool) := do
  match callee with
  | .expression tree =>
    if ← isSign .backtick then
      return (← within (fun c => { c with colonExpected := false })
        (taggedTemplate first tree []), true)
    else return (tree, false)
  | .superKeyword => fail .here (if noCall then .superCallNotHere else .superNotHere)
  | .importKeyword => fail .here .importNotHere

/-- What `subscript` reads where that has no type arguments before it. -/
def plainSubscript (first : Nat) (callee : Callee) (noCall noIndex : Bool) :
    Clause (Tree × Bool) := do
  let optional ← eatOptional
  let isIndex ← if noIndex then pure false else eatIndex optional
  if isIndex then
    let index ← withIn true expression
    expect .closeBracket
    return (← memberNode first callee optional [index], true)
  else if ← eatCallDot optional noCall then return (← callLink first callee optional, true)
  else if ← eat .dot then return (← memberLink first callee optional, true)
  else templateLink first callee noCall

/-- One access, call or template after an expression, and whether more can follow. -/
def subscript (first : Nat) (callee : Callee) (noCall noIndex : Bool) : Clause (Tree × Bool) := do
  if !(← lineBreak) && (← isSign .bang) then return (← nonNull first callee, true)
  else if ← isSign .less then
    (genericSubscript? first callee noCall).otherwise
      (plainSubscript first callee noCall noIndex)
  else plainSubscript first callee noCall noIndex

/-- The accesses, calls and templates after an expression. -/
def subscripts (first : Nat) (callee : Callee) (noCall noIndex : Bool) : Clause Tree :=
  repeating (fun (callee : Callee) => do
    let (tree, more) ← subscript first callee noCall noIndex
    if more then return .inl (.expression tree) else return .inr tree) callee

/-- What follows the word `import` in an expression. -/
def importTail (first : Nat) (noCall : Bool) : Clause Tree := do
  if ← eat .dot then
    let _ ← need
    if (← isWord "defer") || (← isWord "source") then
      take
      subscripts first .importKeyword noCall false
    else if ← isAnyWord then
      unless ← isWord "meta" do unexpected "meta"
      take
      subscripts first (.expression (← node .metaProperty first [])) noCall false
    else fail .here .nameExpected
  else subscripts first .importKeyword noCall false

/-- An optional chain may not be constructed from. -/
def checkConstructed : Tree → Clause Unit
  | .node .optionalMember first _ _ => fail (.token first) .optionalConstructor
  | .node .optionalCall first _ _ => fail (.token first) .optionalConstructor
  | .node .member _ _ (object :: _) => do
    if object.shape == .optionalMember || object.shape == .optionalCall then
      fail (.token object.first) .optionalConstructor
  | _ => return

/-- An expression with its member accesses, or a construction.  `isNew` allows a construction
without arguments. -/
def memberOrNew (isNew : Bool) : Clause Tree := do
  let first ← mark
  if ← eatWord "new" then
    if ← eat .dot then
      unless ← eatWord "target" do unexpected "target"
      let surroundings ← context
      unless surroundings.hasNewTarget || surroundings.inParameters || surroundings.inClass do
        report (.token first) .newTargetOutside
      subscripts first (.expression (← node .metaProperty first [])) true false
    else
      let callee ← rule (.memberOrNew isNew)
      if callee.isArrow then return callee
      if isNew then checkConstructed callee
      let generics ← if ← isOneOf [.less, .shiftLeft] then
          attempt do
            let generics ← rule .typeArguments
            unless ← isSign .openParen do expect .openParen
            return some generics
        else pure none
      if !isNew || (← isSign .openParen) then
        let arguments ← rule .arguments
        let tree ← node (.new true) first (callee :: arguments ++ generics.toList)
        subscripts first (.expression tree) true false
      else node (.new false) first (callee :: generics.toList)
  else if ← eatWord "super" then subscripts first .superKeyword true false
  else if ← eatWord "import" then importTail first true
  else
    let object ← primary
    if object.isArrow then return object
    let generics ← typeArguments?
    let object ← if generics.isEmpty then pure object
      else node .instantiation first (object :: generics)
    subscripts first (.expression object) true false

/-- An expression with its member accesses and calls. -/
def leftHandSide : Clause Tree := do
  let first ← mark
  if ← eatWord "super" then subscripts first .superKeyword false false
  else if ← eatWord "import" then importTail first false
  else
    let callee ← memberOrNew true
    if callee.isArrow then return callee
    let generics ← if ← isOneOf [.less, .shiftLeft] then
        attempt do
          let generics ← rule .typeArguments
          if ← isSign .openParen then return some generics else return none
      else pure none
    if callee.shape == .new false then
      if generics.isSome then expect .openParen
      return callee
    else if ← isSign .openParen then
      let call ← call first (.expression callee) generics.toList
      subscripts first (.expression call) false false
    else
      if generics.isSome then expect .openParen
      return callee

/-- An operand after `await`. -/
def awaited : Clause Tree := do
  let first ← mark
  take
  if ← isSign .times then fail .here .awaitStar
  let surroundings ← context
  let alone ← if surroundings.async then pure false
    else if ← isOneOf [.closeParen, .closeBracket, .comma] then pure true
    else isEnd
  if alone then
    report (.token first) .awaitAsName
    node (.variable "await") first []
  else
    if surroundings.inFunction && !surroundings.async then report .here .awaitOutsideAsync
    if surroundings.inParameters && !surroundings.inFunction && surroundings.async then
      report (.token first) .awaitInParameters
    let operand ← rule .unary
    node .await first [operand]

/-- Complains about an operand of `delete` that is no property. -/
def checkDeleted (operand : Tree) : Clause Unit := do
  if let .variable _ := operand.shape then report (.token operand.first) .deleteOfName
  let deleted := operand.withoutParens
  unless deleted.shape == .member || deleted.shape == .optionalMember do
    report (.token deleted.first) .deleteOfNonProperty

/-- An operand of an operator: an expression with the operators that take one operand. -/
def unary : Clause Tree := do
  let first ← mark
  if ← eat .less then
    if ← eatWord "const" then
      expect .greater
      node .asConst first [← rule .unary]
    else
      let asserted ← inType type
      expect .greater
      let operand ← rule .unary
      node .typeAssertion first [operand, asserted]
  else if ← isOneOf [.increment, .decrement] then
    take
    let operand ← rule .unary
    checkTarget operand
    node .update first [operand]
  else if (← isOneOf [.plus, .minus, .tilde, .bang]) || (← isWord "delete") || (← isWord "void")
      || (← isWord "typeof") then
    let isDelete ← isWord "delete"
    take
    let operandFirst ← mark
    let operand ← rescued (rule .unary)
      (return some (.node .missing operandFirst operandFirst []))
    if isDelete then checkDeleted operand
    node .unary first [operand]
  else if ← isWord "await" then awaited
  else
    let operand ← rule .leftHandSide
    if operand.isArrow then return operand
    else if ← lineBreak then return operand
    else if ← isOneOf [.increment, .decrement] then
      checkTarget operand
      take
      node .update first [operand]
    else return operand

/-- The operator that is next, and how tightly it binds. -/
def operator? : Clause (Option (Operator × Nat)) := do
  match ← current with
  | .word "in" => if (← context).inOperator then return some (.other, 7) else return none
  | .word "instanceof" => return some (.other, 7)
  | .sign s =>
    match s.precedence? with
    | none => return none
    | some precedence =>
      let operator := match s with
        | .coalesce => Operator.coalesce
        | .and | .or => .logical
        | .power => .power
        | _ => .other
      return some (operator, precedence)
  | _ => return none

/-- A type after `as` or `satisfies`.  An angle after it is an operator again. -/
def castType : Clause Tree := do
  let found ← inType do
    take
    type
  if !(← context).inType && (← isOneOf [.less, .greater]) then rescan .plain
  return found

/-- Complains about `??` together with `||` or `&&` without parentheses. -/
def checkMixed (operator : Operator) (left right : Tree) : Clause Unit := do
  let isLogical (t : Tree) : Bool := t.shape == .binary .logical
  if operator == .coalesce then
    if isLogical left then report (.token left.first) .mixedCoalescing
    if isLogical right then report (.token right.first) .mixedCoalescing
  if operator == .logical && left.shape == .binary .coalesce then
    report (.token left.first) .mixedCoalescing

/-- An operator after an operand, and the operand after it. -/
def operation (left : Tree) (operator : Operator) (precedence : Nat) : Clause Tree := do
  if operator == .power && (left.shape == .unary || left.shape == .await) then
    fail .here .powerOfUnary
  take
  let operand ← rule .unary
  let right ← rule (.binaryTail operand
    (if operator == .power then precedence - 1 else precedence))
  checkMixed operator left right
  return .node (.binary operator) left.first right.stop [left, right]

/-- One step of the operators after an operand that bind more tightly than `least`: the expression
so far, and whether more can follow. -/
def binaryStep (left : Tree) (least : Nat) : Clause (Tree × Bool) := do
  let first := left.first
  if least < 7 && !(← lineBreak) && (← isWord "as") then
    if ← isAheadWord "const" then
      take
      take
      return (← node .asConst first [left], true)
    else
      let asserted ← castType
      return (← node .asType first [left, asserted], true)
  else if !(← lineBreak) && (← isWord "satisfies") then
    let asserted ← castType
    return (← node .satisfiesType first [left, asserted], true)
  else
    match ← operator? with
    | none => return (left, false)
    | some (operator, precedence) =>
      if precedence ≤ least then return (left, false)
      else return (← operation left operator precedence, true)

/-- The operators after an operand that bind more tightly than `least`. -/
def binaryTail (left : Tree) (least : Nat) : Clause Tree :=
  repeating (fun (left : Tree) => do
    let (tree, more) ← binaryStep left least
    if more then return .inl tree else return .inr tree) left

/-- Where an operator is next, it stands for the operand before it that could not be read. -/
def missingOperand? : Clause (Option Tree) := do
  let number ← mark
  let invalid := Tree.node .invalid number (number + 1) []
  match ← need with
  | .word "in" => if (← context).inOperator then return some invalid else return none
  | .word "instanceof" => return some invalid
  | .sign s => if s.isBinary then return some invalid else return none
  | _ => return none

/-- Operands joined by operators.  Where the first operand cannot be read but an operator follows,
the complaint is noted and reading goes on. -/
def binary : Clause Tree := do
  let left ← rescued (rule .unary) missingOperand?
  if left.isArrow then return left else rule (.binaryTail left 0)

/-- An arrow with type parameters, where an angle may as well start a type assertion. -/
def genericArrow? : Clause (Option Tree) := do
  if !(← isSign .less) then return none
  else if !(← isAheadAnyWord) then return none
  else
    let first ← mark
    within (fun c => { c with colonExpected := false })
      (attempt do
        let generics ← rule .typeParameters
        let arrow ← assignment
        unless arrow.isArrow do unexpected "("
        return some (.node .arrow first arrow.stop (arrow.children ++ [generics])))

/-- Whether an operand of `yield` follows. -/
def startsYielded : Clause Bool := do
  if ← isEnd then return false
  else
    match ← current with
    | .word word =>
      return !isKeyword word || ["await", "new", "this", "super", "class", "function", "import",
        "typeof", "void", "delete", "null", "true", "false", "yield", "let", "throw"].contains word
    | .sign s =>
      return [.openParen, .openBracket, .openBrace, .bang, .tilde, .increment, .decrement, .plus,
        .minus, .less, .times, .divide, .assignWith .divide, .backtick, .hash, .atSign].contains s
    | .malformed => return false
    | _ => return true

/-- What follows `yield`. -/
def yielded : Clause Tree := do
  let first ← mark
  take
  let surroundings ← context
  if surroundings.inParameters && !surroundings.inFunction then
    fail (.token first) .yieldInParameters
  if ← startsYielded then
    let _ ← eat .times
    node .yield first [← assignment]
  else node .yield first []

/-- Whether the next token may be the first of an arrow. -/
def mayStartArrow : Clause Bool := do
  match ← need with
  | .word word => return !isKeyword word || word == "yield"
  | .sign .openParen => return true
  | _ => return false

/-- An expression without commas that is no arrow with type parameters. -/
def plainAssignment : Clause Tree := do
  if (← context).generator && (← isWord "yield") then yielded
  else
    let first ← mark
    let mayStart ← mayStartArrow
    note fun n => { n with arrowStart := if mayStart then some first else none }
    let test ← rule .binary
    if test.isArrow then return test
    else if ← isSign .question then conditionalTail first test
    else
      match test.shape with
      | .binary _ | .unary | .update => return test
      | _ => assignmentTail first test

/-- An expression without commas. -/
def assignmentBody : Clause Tree := genericArrow?.otherwise plainAssignment

end WebModules.Script.Clause
