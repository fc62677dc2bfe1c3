import WebModules.Script.Grammar.Function

/-!
Classes and their members.
-/

namespace WebModules.Script.Clause

/-- What stands before the key of a class member. -/
structure MemberHead where
  /-- The first token of the member. -/
  first : Nat
  declared : Option Nat := none
  access : Bool := false
  static : Option Nat := none
  isStatic : Bool := false
  isAbstract : Bool := false
  override : Bool := false
  readonly : Option Nat := none
  /-- The last modifier read. -/
  modifier : Option Nat := none
  optional : Bool := false
  deriving Inhabited

def classKey : Clause Key := do
  if ← isSign .hash then
    let first ← mark
    let name ← hashedName
    if name == "constructor" then report (.token first) .privateConstructor
    return .hashed name
  else propertyKey

def isConstructorKey (first : Nat) : Key → Clause Bool
  | .word name => return name == "constructor"
  | .string => testString first .isConstructor
  | _ => return false

/-- Whether a method follows its key. -/
def isMethod : Clause Bool := isOneOf [.openParen, .less]

/-- Whether a field follows its key; with `lineEnd` it may end with its line. -/
def isField (lineEnd : Bool) : Clause Bool := do
  if ← isOneOf [.bang, .colon, .assign, .closeBrace] then return true
  else if lineEnd then isEnd else isSign .semicolon

/-- A method after its key. -/
def method (head : MemberHead) (key : Key) (kind : FunctionKind) (wanted : ParameterRule) :
    Clause Tree := do
  let function ← within (fun c => { c with classField := false })
    (rule (.function head.first kind wanted))
  if key.isHashed then
    if head.access then report (.token head.first) .accessOnPrivate
  else if head.isAbstract && function.shape != .hole then
    report (.token head.first) .abstractBody
  node .group head.first (key.parts ++ function.children)

/-- A field after its key, which starts at token `keyFirst`. -/
def field (head : MemberHead) (keyFirst : Nat) (key : Key) : Clause Tree := do
  if ← isConstructorKey keyFirst key then fail (.token keyFirst) .constructorField
  if key.isHashed then
    if head.declared.isSome then report (.token keyFirst) (.privateModifier "declare")
    if head.isAbstract then report (.token keyFirst) (.privateModifier "abstract")
  unless head.optional do
    let _ ← eat .bang
  let typing ← annotation?
  within (fun c => { c with inOperator := true, classField := true }) do
    let value ← if ← eat .assign then do pure [← assignment] else pure []
    unless ← eatEnd do report .here .semicolonExpected
    if key.isHashed then
      if head.access then report (.token head.first) .accessOnPrivate
    else if head.isAbstract && !value.isEmpty then
      report (.token head.first) .abstractInitializer
    node .group head.first (key.parts ++ value ++ typing)

/-- A constructor after its key. -/
def constructor (head : MemberHead) : Clause Tree := do
  if head.override then report (.token head.first) (.modifierOnConstructor "override")
  if ← isSign .less then
    let first ← mark
    let generics ← rule .typeParameters
    if generics.children.isEmpty then report (.token first) .emptyTypeParameters
    reportAll .typeParametersOnConstructor (generics.children.map Tree.first)
  expect .openParen
  let parameters ← constructorParameters
  expect .closeParen
  if ← isSign .colon then
    let typing ← annotation?
    reportAll .resultOfConstructor (typing.map Tree.first)
  let simple := areSimple parameters
  let body ← rule (.body {} simple)
  if body.shape == .hole then
    reportAll .propertyOutsideConstructor
      ((parameters.filter fun p => p.shape == .pattern).map Tree.first)
    reportAll .initializerWithoutBody
      ((parameters.filter fun p => p.shape == .initializedPattern).map Tree.first)
  reportAll (.modifierOnConstructor "static") head.static.toList
  if head.isAbstract then reportAll .abstractConstructor head.modifier.toList
  node (if body.shape == .hole then .group else .methodProperty) head.first (parameters ++ [body])

/-- A static block after its modifiers. -/
def staticBlock (head : MemberHead) : Clause Tree := do
  let block ← within (fun c =>
    { c with
      staticBlock := true, classField := true, breakAllowed := false, continueAllowed := false })
    (rule .block)
  node .group head.first [block]

/-- Reads the modifiers between `static` and the key. -/
def memberModifiers (head : MemberHead) : Clause MemberHead :=
  repeating (fun (head : MemberHead) => do
    match ← current with
    | .finish => return .inr head
    | _ =>
      match ← modifier? ["abstract", "readonly", "override", "static"] true with
      | none => return .inr head
      | some modifier =>
        let number := (← mark) - 1
        let place := Place.token number
        let head := { head with modifier := some number }
        match modifier with
        | "abstract" =>
          if head.isAbstract then report place (.repeatedModifier "abstract")
          else if head.override then report place (.modifierOrder "abstract" "override")
          return .inl { head with isAbstract := true }
        | "override" =>
          if head.override then report place (.repeatedModifier "override")
          else if head.readonly.isSome then report place (.modifierOrder "override" "readonly")
          else if head.declared.isSome then report place (.modifierClash "override" "declare")
          else if !(← context).hasBase then report place .overrideWithoutBase
          return .inl { head with override := true }
        | "readonly" =>
          if head.readonly.isSome then report place (.repeatedModifier "readonly")
          return .inl { head with readonly := head.readonly.or (some number) }
        | _ =>
          if head.override then report place (.modifierOrder "static" "override")
          return .inl { head with isStatic := true }) head

/-- A member that begins with the word `get`, `set` or `async` read as its key at token
`keyFirst`. -/
def specialMember (head : MemberHead) (keyFirst : Nat) (word : String) : Clause Tree := do
  if word == "async" then
    let override ← eatModifier ["override"]
    if override then report (.token ((← mark) - 1)) (.modifierOrder "override" "async")
    let generator ← eat .times
    let nameFirst ← mark
    let name ← classKey
    if ← isConstructorKey nameFirst name then fail (.token nameFirst) .asyncConstructor
    if head.readonly.isSome then fail (.token head.first) .readonlyMethod
    let _ ← eat .question
    method { head with override := head.override || override } name
      { async := true, generator := generator } .any
  else
    let nameFirst ← mark
    let name ← classKey
    if head.readonly.isSome then report (.token keyFirst) .readonlyAccessor
    if ← isConstructorKey nameFirst name then report (.token keyFirst) .constructorAccessor
    let _ ← eat .question
    method head name {} (if word == "get" then .getter keyFirst else .setter keyFirst)

/-- A member after its modifiers that is no index signature. -/
def namedMember (head : MemberHead) : Clause Tree := do
  if ← eat .times then
    let keyFirst ← mark
    let key ← classKey
    if head.readonly.isSome then report (.token head.first) .readonlyMethod
    if ← isConstructorKey keyFirst key then report (.token head.first) .generatorConstructor
    method head key { generator := true } .any
  else
    let keyFirst ← mark
    let (keyFirst, key) ← if head.readonly.isSome && (← isOneOf [.bang, .colon]) then
        pure (head.readonly.getD keyFirst, Key.word "readonly")
      else do pure (keyFirst, ← classKey)
    let head := { head with optional := ← eat .question }
    if ← isMethod then
      reportAll .declareOnMethod head.declared.toList
      if head.readonly.isSome then fail (.token head.first) .readonlyMethod
      if ← isConstructorKey keyFirst key then constructor head
      else method head key {} .any
    else
      let accessor ← if key.isWord "get" || key.isWord "set" then do
          pure (!(← isField false) && !((← lineBreak) && (← isSign .times)))
        else pure false
      if !accessor && (← isField true) then field head keyFirst key
      else if key.isWord "async" && !(← lineBreak) then specialMember head keyFirst "async"
      else if accessor then
        specialMember head keyFirst (if key.isWord "get" then "get" else "set")
      else unexpected "* for generator, private key, identifier or async"

/-- A member after its modifiers. -/
def memberTail (head : MemberHead) : Clause Tree :=
  if !head.isAbstract && !head.override && !head.access then
    indexSignature?.otherwise (namedMember head)
  else namedMember head

/-- A method or field named by a word that was read as a modifier, if one follows. -/
def namedByModifier? (head : MemberHead) (word : String) (number : Nat) :
    Clause (Option Tree) := do
  if ← isMethod then
    return some (← method head (.word word) {} .any)
  else if (← isField false) || (← isSign .question) then
    let optional ← eat .question
    if ← isMethod then return some (← method head (.word word) {} .any)
    else return some (← field { head with optional := optional } number (.word word))
  else return none

/-- A member after the modifier `static`, or where that may stand. -/
def modifiedMember (head : MemberHead) : Clause Tree := do
  let head ← memberModifiers head
  if head.isStatic && (← isSign .openBrace) then
    reportAll .modifierNotHere head.modifier.toList
    if head.access then report .here .modifierNotHere
    staticBlock head
  else if (← isWord "static") && (← isAheadSign .openBrace) then
    reportAll .modifierNotHere head.modifier.toList
    take
    staticBlock head
  else memberTail head

/-- A member after the modifiers that come before `static`. -/
def staticMember (head : MemberHead) : Clause Tree := do
  let static ← mark
  if ← eatWord "static" then
    let later := modifiedMember { head with static := some static, isStatic := true }
    if ← isSign .openBrace then later
    else (namedByModifier? head "static" static).otherwise later
  else modifiedMember head

/-- A member that may have the modifier `declare` next, with `rest` after that. -/
def declareMember (head : MemberHead) (rest : MemberHead → Clause Tree) : Clause Tree := do
  let number ← mark
  if ← eatWord "declare" then
    (namedByModifier? head "declare" number).otherwise
      (rest { head with declared := some number })
  else rest head

def classMember : Clause Tree := do
  let first ← mark
  declareMember { first := first } fun head => do
    let access ← eatModifier ["public", "protected", "private"]
    let head := { head with access := access }
    if head.declared.isSome then staticMember head else declareMember head staticMember

/-- The members up to the closing brace. -/
def classMembers : Clause (List Tree) := do
  let found ← repeating (fun (state : List Tree × Bool) => do
    let (found, constructed) := state
    if (← isFinish) || (← isSign .closeBrace) then return .inr found
    else if ← eat .semicolon then return .inl (found, constructed)
    else
      let member ← classMember
      let isConstructor := member.shape == .methodProperty && !(← context).ambient
      if isConstructor && constructed then report (.token member.first) .duplicateConstructor
      return .inl (member :: found, constructed || isConstructor)) ([], false)
  return found.reverse

/-- An expression that stands for a type, and its type arguments. -/
def withArguments : Tree → Clause (Tree × List Tree)
  | .node .instantiation _ _ (inner :: arguments) => return (inner, arguments)
  | base => do
    if ← isSign .less then return (base, [← rule .typeArguments]) else return (base, [])

/-- What a class extends, and the type arguments of that. -/
def baseClass : Clause (Tree × List Tree) := do withArguments (← rule .leftHandSide)

/-- Complains about what an interface extends if that is no name. -/
def checkHeritage (first : Nat) (base : Tree) : Clause Unit := do
  match base.shape with
  | .variable _ | .member | .instantiation => return
  | _ => report (.token first) .interfaceBase

/-- One of the types that a class implements or an interface extends: a name with members and type
arguments. -/
def heritage : Clause Tree := do
  let first ← mark
  let name ← anyWord
  let root ← node (.variable name) first []
  let base ← rule (.subscripts first (.expression root) true true)
  checkHeritage first base
  let (base, arguments) ← withArguments base
  node .group first (base :: arguments)

def heritages : Clause (List Tree) :=
  commaSeparated (do return (← isSign .openBrace) || (← isWord "implements") || (← isWord "extends"))
    heritage

/-- The names that no class may have: those of the types that the language comes with. -/
def takenClassNames : List String :=
  ["any", "bigint", "boolean", "never", "number", "object", "string", "symbol", "unknown",
    "undefined", "void"]

def checkClassName : List Tree → Clause Unit
  | [.node (.boundName word) number _ _] =>
    if takenClassNames.contains word then report (.token number) .invalidClassName else return
  | _ => return

/-- What a class says that it extends. -/
def extended? : Clause (Option (Tree × List Tree)) := do
  if ← eatWord "extends" then
    let base ← baseClass
    if ← eat .comma then reportAll .severalBases ((← heritages).map Tree.first)
    return some base
  else return none

/-- What a class says that it extends where it may not say so. -/
def misplacedExtended? (complaint : Complaint) : Clause (Option (Tree × List Tree)) := do
  let number ← mark
  if ← eatWord "extends" then
    report (.token number) complaint
    return some (← baseClass)
  else return none

/-- The types that a class says it implements. -/
def implemented : Clause (List Tree) := do
  if ← eatWord "implements" then heritages else return []

/-- The types that a class says it implements where it may not say so. -/
def misplacedImplemented : Clause Unit := do
  let number ← mark
  if ← eatWord "implements" then
    report (.token number) .secondImplements
    let _ ← heritages

/-- A class from the word `class` on. -/
def classTail (first : Nat) (nameRequired : Bool) : Clause Tree :=
  within (fun c => { c with inClass := true }) do
    expectWord "class"
    checkClassName (← boundName? nameRequired)
    let generics ← typeParameters?
    let base ← extended?
    let _ ← misplacedExtended? .secondExtends
    let implemented ← implemented
    misplacedImplemented
    let base := base.or (← misplacedExtended? .extendsAfterImplements)
    expect .openBrace
    let members ← within (fun c => { c with hasBase := base.isSome }) classMembers
    if ← isFinish then report .here (.expected "\x7d") else expect .closeBrace
    let extended := (base.map Prod.fst).toList
    let arguments := (base.map Prod.snd).getD []
    node .classExpression first (members ++ extended ++ generics ++ arguments ++ implemented)

end WebModules.Script.Clause
