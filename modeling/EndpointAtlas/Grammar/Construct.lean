/-!
The constructs of Java: what a stretch of source text can be as a whole. Constructs whose nodes do
not appear in a syntax tree (their parts belong to the construct around them) are `hidden`; among
them are the lists at the end, which stand for one or more repetitions.
-/

namespace EndpointAtlas.Grammar

inductive Construct where
  | goal
  | program | toplevelStatement | literal | stringLiteral | plainString | textBlock
  | textBlockFragment | stringInterpolation | textBlockEscape
  | expression | castExpression | assignmentExpression | binaryExpression | instanceofExpression
  | lambdaExpression | inferredParameters | ternaryExpression | unaryExpression | updateExpression
  | primaryExpression | arrayCreationExpression | dimensionsExpr | parenthesizedExpression
  | classLiteral | objectCreationExpression | unqualifiedObjectCreation | fieldAccess
  | templateExpression | arrayAccess | methodInvocation | argumentList | methodReference
  | typeArguments | wildcard | wildcardBounds | dimensions
  | switchExpression | switchBlock | switchBlockStatementGroup | switchRule | switchLabel
  | pattern | typePattern | recordPattern | recordPatternBody | recordPatternComponent | guard
  | statement | block | expressionStatement | labeledStatement | assertStatement | doStatement
  | breakStatement | continueStatement | returnStatement | yieldStatement | synchronizedStatement
  | throwStatement | tryStatement | catchClause | catchFormalParameter | catchType | finallyClause
  | tryWithResourcesStatement | resourceSpecification | resource | ifStatement | whileStatement
  | forStatement | enhancedForStatement
  | annotationItem | annotationMarker | annotationCall | annotationArgumentList | elementValuePair
  | elementValue | elementValueArrayInitializer
  | declaration | moduleDeclaration | moduleBody | moduleDirective | requiresModuleDirective
  | requiresModifier | exportsModuleDirective | opensModuleDirective | usesModuleDirective
  | providesModuleDirective | packageDeclaration | importDeclaration | asterisk
  | enumDeclaration | enumBody | enumBodyDeclarations | enumConstant
  | classDeclaration | modifiers | typeParameters | typeParameter | typeBound | superclass
  | superInterfaces | typeList | permits | classBody | staticInitializer | constructorDeclaration
  | constructorDeclarator | constructorBody | explicitConstructorInvocation | scopedIdentifier
  | fieldDeclaration | recordDeclaration | annotationTypeDeclaration | annotationTypeBody
  | annotationTypeElementDeclaration | defaultValue | interfaceDeclaration | extendsInterfaces
  | interfaceBody | constantDeclaration | variableDeclaratorList | variableDeclarator
  | variableDeclaratorId | arrayInitializer
  | anyType | unannotatedType | annotatedType | scopedTypeIdentifier | genericType
  | arrayType | integralType | floatingPointType
  | methodHeader | methodDeclarator | formalParameters | formalParameter | receiverParameter
  | spreadParameter | throws | localVariableDeclaration | methodDeclaration
  | compactConstructorDeclaration | reservedIdentifier
  | toplevelStatements | stringParts | textBlockParts | intersectionTail | inferredParameterTail
  | annotations | dimensionsExprs | expressionTail | typeArgumentTail | dimensionPairs
  | switchGroups | switchRules | switchLabels | statements | recordPatternTail | catchClauses
  | catchTypeTail | resourceTail | forInitTail | forUpdateTail | elementValuePairTail
  | elementValueTail | moduleDirectives | requiresModifiers | moduleNameTail | providerTail
  | enumConstantTail | classBodyDeclarations | modifierList | typeParameterTail | boundTail
  | typeTail | annotationTypeMembers | interfaceMembers | variableDeclaratorTail
  | variableInitializerTail | parameterTail | receiverPath
  deriving DecidableEq, Repr, Inhabited

namespace Construct

def all : List Construct := (List.range 183).map Construct.ofNat

theorem mem_all (c : Construct) : c ∈ all := by cases c <;> decide

def index (c : Construct) : Nat := c.ctorIdx

/-- Whether the nodes of a construct are left out of the tree, their parts belonging to the construct
around them. -/
def hidden : Construct → Bool
  | goal
  | toplevelStatement | literal | plainString | textBlock | textBlockFragment | textBlockEscape
  | expression | primaryExpression | unqualifiedObjectCreation | wildcardBounds
  | statement | annotationItem | elementValue | declaration | moduleDirective
  | constructorDeclarator | defaultValue | variableDeclaratorList | variableDeclaratorId
  | anyType | unannotatedType | methodHeader | methodDeclarator | reservedIdentifier
  | toplevelStatements | stringParts | textBlockParts | intersectionTail | inferredParameterTail
  | annotations | dimensionsExprs | expressionTail | typeArgumentTail | dimensionPairs
  | switchGroups | switchRules | switchLabels | statements | recordPatternTail | catchClauses
  | catchTypeTail | resourceTail | forInitTail | forUpdateTail | elementValuePairTail
  | elementValueTail | moduleDirectives | requiresModifiers | moduleNameTail | providerTail
  | enumConstantTail | classBodyDeclarations | modifierList | typeParameterTail | boundTail
  | typeTail | annotationTypeMembers | interfaceMembers | variableDeclaratorTail
  | variableInitializerTail | parameterTail | receiverPath => true
  | _ => false

end Construct

end EndpointAtlas.Grammar
