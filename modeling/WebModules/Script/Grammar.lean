import WebModules.Script.Grammar.Module

/-!
The grammar: what each named rule reads.
-/

namespace WebModules.Script

def Rule.clause : {α : Type} → Rule α → Clause α
  | _, .expression => Clause.expressionBody
  | _, .assignment => Clause.assignmentBody
  | _, .binary => Clause.binary
  | _, .binaryTail left least => Clause.binaryTail left least
  | _, .unary => Clause.unary
  | _, .leftHandSide => Clause.leftHandSide
  | _, .memberOrNew isNew => Clause.memberOrNew isNew
  | _, .subscripts first callee noCall noIndex => Clause.subscripts first callee noCall noIndex
  | _, .arguments => Clause.arguments
  | _, .object => Clause.object
  | _, .asPattern target element tree => Clause.asPattern target element tree
  | _, .bindingTarget => Clause.bindingTarget
  | _, .parameters => Clause.parameters
  | _, .function first kind wanted => Clause.function first kind wanted
  | _, .namedFunction async isExpression nameRequired =>
    Clause.namedFunction async isExpression nameRequired
  | _, .classTail first nameRequired => Clause.classTail first nameRequired
  | _, .body kind simple => Clause.body kind simple
  | _, .arrowBody async simple => Clause.arrowBody async simple
  | _, .block => Clause.block
  | _, .type => Clause.typeBody
  | _, .plainType => Clause.plainType
  | _, .typeOperator => Clause.typeOperator
  | _, .importType => Clause.importType
  | _, .typeArguments => Clause.typeArguments
  | _, .typeParameters => Clause.typeParameters
  | _, .result mark => Clause.result mark
  | _, .statement declarations topLevel => Clause.statement declarations topLevel
  | _, .moduleBlock => Clause.moduleBlock
  | _, .namespaceTail first => Clause.namespaceTail first

end WebModules.Script
