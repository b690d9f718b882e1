import EndpointAtlas.Grammar.Form

/-!
The grammar of Java. A source file is a sequence of statements, declarations and methods; words such
as `record` or `module` also serve as names.
-/

namespace EndpointAtlas.Grammar

open Part Form

namespace Level

def assign : Int := 1
def declaration : Int := 2
def elementValue : Int := 2
def ternary : Int := 3
def or : Int := 4
def and : Int := 5
def bitOr : Int := 6
def bitXor : Int := 7
def bitAnd : Int := 8
def equality : Int := 9
def relation : Int := 10
def shift : Int := 11
def add : Int := 12
def multiply : Int := 13
def cast : Int := 14
def unary : Int := 15

end Level

def anyIdentifier : Part := anyOf [tok .identifier, sub .reservedIdentifier]

def dottedName : Part := anyOf [tok .identifier, sub .reservedIdentifier, sub .scopedIdentifier]

def variableInitializer : Part := anyOf [sub .expression, sub .arrayInitializer]

def simpleType : Part :=
  anyOf [tok .voidWord, sub .integralType, sub .floatingPointType, tok .booleanWord, typeName,
    sub .scopedTypeIdentifier, sub .genericType]

private def annotationsHere : Part := opt (sub .annotations)

private def modifiersHere : Part := opt (sub .modifiers)

private def parameter : Part := anyOf [sub .formalParameter, sub .spreadParameter]

private def binary (level : Int) (op : Terminal) : Form :=
  grouped level .left [sub .expression, tok op, sub .expression]

def forms : Construct → List Form
  | .goal => [seq [sub .program]]
  | .program => [seq [opt (sub .toplevelStatements)]]
  | .toplevelStatement => [seq [anyOf [sub .statement, sub .methodDeclaration]]]
  | .literal =>
    [seq [anyOf [tok .decimalInteger, tok .hexInteger, tok .octalInteger, tok .binaryInteger,
      tok .decimalFloat, tok .hexFloat, tok .trueWord, tok .falseWord, tok .characterLiteral,
      sub .stringLiteral, tok .nullWord]]]
  | .stringLiteral => [seq [anyOf [sub .plainString, sub .textBlock]]]
  | .plainString => [seq [tok .quote, opt (sub .stringParts), tok .quote]]
  | .textBlock => [seq [tok .tripleQuote, opt (sub .textBlockParts), tok .tripleQuote]]
  | .textBlockFragment => [seq [anyOf [tok .textBlockRun, tok .textBlockQuoted]]]
  | .stringInterpolation => [seq [tok .openInterpolation, sub .expression, tok .closeBrace]]
  | .textBlockEscape => [leveled 2 [tok .otherEscape], leveled 1 [tok .escapeSequence]]
  | .expression =>
    [seq [anyOf [sub .assignmentExpression, sub .binaryExpression, sub .instanceofExpression,
      sub .lambdaExpression, sub .ternaryExpression, sub .updateExpression, sub .primaryExpression,
      sub .unaryExpression, sub .castExpression, sub .switchExpression]]]
  | .castExpression =>
    [leveled Level.cast [tok .openParen, sub .anyType, tok .closeParen, sub .expression],
      leveled Level.cast [tok .openParen, sub .anyType, opt (sub .intersectionTail),
        tok .closeParen, anyOf [sub .primaryExpression, sub .lambdaExpression]]]
  | .assignmentExpression =>
    [grouped Level.assign .right
      [anyOf [tok .identifier, sub .reservedIdentifier, sub .fieldAccess, sub .arrayAccess],
        anyOf [tok .assign, tok .plusAssign, tok .minusAssign, tok .timesAssign, tok .divideAssign,
          tok .andAssign, tok .orAssign, tok .xorAssign, tok .remainderAssign,
          tok .shiftLeftAssign, tok .shiftRightAssign, tok .unsignedShiftAssign],
        sub .expression]]
  | .binaryExpression =>
    [binary Level.relation .greater, binary Level.relation .less,
      binary Level.relation .greaterEqual, binary Level.relation .lessEqual,
      binary Level.equality .equalTo, binary Level.equality .notEqual,
      binary Level.and .andAnd, binary Level.or .orOr,
      binary Level.add .plus, binary Level.add .minus,
      binary Level.multiply .star, binary Level.multiply .slash,
      binary Level.bitAnd .ampersand, binary Level.bitOr .bar, binary Level.bitXor .caret,
      binary Level.multiply .percent,
      binary Level.shift .shiftLeft, binary Level.shift .shiftRight,
      binary Level.shift .unsignedShift]
  | .instanceofExpression =>
    [leveled Level.relation [sub .expression, tok .instanceofWord, opt (tok .finalWord),
        sub .anyType, opt anyIdentifier],
      leveled Level.relation [sub .expression, tok .instanceofWord, opt (tok .finalWord),
        sub .recordPattern]]
  | .lambdaExpression =>
    [seq [anyOf [tok .identifier, sub .formalParameters, sub .inferredParameters,
      sub .reservedIdentifier], tok .arrow, anyOf [sub .expression, sub .block]]]
  | .inferredParameters =>
    [seq [tok .openParen, anyIdentifier, opt (sub .inferredParameterTail), tok .closeParen]]
  | .ternaryExpression =>
    [grouped Level.ternary .right [sub .expression, tok .question, sub .expression, tok .colon,
      sub .expression]]
  | .unaryExpression =>
    [grouped Level.unary .left [tok .plus, sub .expression],
      grouped Level.unary .left [tok .minus, sub .expression],
      grouped Level.unary .left [tok .bang, sub .expression],
      grouped Level.unary .left [tok .tilde, sub .expression]]
  | .updateExpression =>
    [grouped Level.unary .left [sub .expression, tok .increment],
      grouped Level.unary .left [sub .expression, tok .decrement],
      grouped Level.unary .left [tok .increment, sub .expression],
      grouped Level.unary .left [tok .decrement, sub .expression]]
  | .primaryExpression =>
    [seq [anyOf [sub .literal, sub .classLiteral, tok .thisWord, tok .identifier,
      sub .reservedIdentifier, sub .parenthesizedExpression, sub .objectCreationExpression,
      sub .fieldAccess, sub .arrayAccess, sub .methodInvocation, sub .methodReference,
      sub .arrayCreationExpression, sub .templateExpression]]]
  | .arrayCreationExpression =>
    [grouped 0 .right [tok .newWord, annotationsHere, simpleType, sub .dimensionsExprs,
        opt (sub .dimensions)],
      grouped 0 .right [tok .newWord, annotationsHere, simpleType, sub .dimensions,
        sub .arrayInitializer]]
  | .dimensionsExpr =>
    [seq [annotationsHere, tok .openBracket, sub .expression, tok .closeBracket]]
  | .parenthesizedExpression => [seq [tok .openParen, sub .expression, tok .closeParen]]
  | .classLiteral => [biased 17 [sub .unannotatedType, tok .dot, tok .classWord]]
  | .objectCreationExpression =>
    [seq [sub .unqualifiedObjectCreation],
      seq [sub .primaryExpression, tok .dot, sub .unqualifiedObjectCreation]]
  | .unqualifiedObjectCreation =>
    [grouped 0 .right [tok .newWord, annotationsHere, sub .typeArguments, annotationsHere,
        simpleType, sub .argumentList, opt (sub .classBody)],
      grouped 0 .right [tok .newWord, annotationsHere, simpleType, sub .argumentList,
        opt (sub .classBody)]]
  | .fieldAccess =>
    [seq [anyOf [sub .primaryExpression, tok .superWord], tok .dot,
        anyOf [tok .identifier, sub .reservedIdentifier, tok .thisWord]],
      seq [anyOf [sub .primaryExpression, tok .superWord], tok .dot, tok .superWord, tok .dot,
        anyOf [tok .identifier, sub .reservedIdentifier, tok .thisWord]]]
  | .templateExpression => [seq [sub .primaryExpression, tok .dot, sub .stringLiteral]]
  | .arrayAccess =>
    [seq [sub .primaryExpression, tok .openBracket, sub .expression, tok .closeBracket]]
  | .methodInvocation =>
    [seq [anyIdentifier, sub .argumentList],
      seq [anyOf [sub .primaryExpression, tok .superWord], tok .dot, opt (sub .typeArguments),
        anyIdentifier, sub .argumentList],
      seq [anyOf [sub .primaryExpression, tok .superWord], tok .dot, tok .superWord, tok .dot,
        opt (sub .typeArguments), anyIdentifier, sub .argumentList]]
  | .argumentList =>
    [seq [tok .openParen, tok .closeParen],
      seq [tok .openParen, sub .expression, opt (sub .expressionTail), tok .closeParen]]
  | .methodReference =>
    [seq [anyOf [sub .anyType, sub .primaryExpression, tok .superWord], tok .doubleColon,
      opt (sub .typeArguments), anyOf [tok .newWord, tok .identifier]]]
  | .typeArguments =>
    [seq [tok .less, tok .greater],
      seq [tok .less, anyOf [sub .anyType, sub .wildcard], opt (sub .typeArgumentTail),
        tok .greater]]
  | .wildcard => [seq [annotationsHere, tok .question, opt (sub .wildcardBounds)]]
  | .wildcardBounds =>
    [seq [tok .extendsWord, sub .anyType], seq [tok .superWord, sub .anyType]]
  | .dimensions => [grouped 0 .right [sub .dimensionPairs]]
  | .switchExpression => [seq [tok .switchWord, sub .parenthesizedExpression, sub .switchBlock]]
  | .switchBlock =>
    [seq [tok .openBrace, opt (anyOf [sub .switchGroups, sub .switchRules]), tok .closeBrace]]
  | .switchBlockStatementGroup => [grouped 0 .left [sub .switchLabels, opt (sub .statements)]]
  | .switchRule =>
    [seq [sub .switchLabel, tok .arrow,
      anyOf [sub .expressionStatement, sub .throwStatement, sub .block]]]
  | .switchLabel =>
    [seq [tok .caseWord, sub .pattern, opt (sub .guard)],
      seq [tok .caseWord, sub .expression, opt (sub .expressionTail), opt (sub .guard)],
      seq [tok .defaultWord]]
  | .pattern => [seq [anyOf [sub .typePattern, sub .recordPattern]]]
  | .typePattern => [seq [sub .unannotatedType, anyIdentifier]]
  | .recordPattern =>
    [seq [anyOf [tok .identifier, sub .reservedIdentifier, sub .genericType],
      sub .recordPatternBody]]
  | .recordPatternBody =>
    [seq [tok .openParen, tok .closeParen],
      seq [tok .openParen, anyOf [sub .recordPatternComponent, sub .recordPattern],
        opt (sub .recordPatternTail), tok .closeParen]]
  | .recordPatternComponent =>
    [seq [tok .underscore], seq [sub .unannotatedType, anyIdentifier]]
  | .guard => [seq [tok .whenWord, sub .expression]]
  | .statement =>
    [seq [anyOf [sub .declaration, sub .expressionStatement, sub .labeledStatement,
      sub .ifStatement, sub .whileStatement, sub .forStatement, sub .enhancedForStatement,
      sub .block, tok .semicolon, sub .assertStatement, sub .doStatement, sub .breakStatement,
      sub .continueStatement, sub .returnStatement, sub .yieldStatement, sub .switchExpression,
      sub .synchronizedStatement, sub .localVariableDeclaration, sub .throwStatement,
      sub .tryStatement, sub .tryWithResourcesStatement]]]
  | .block => [seq [tok .openBrace, opt (sub .statements), tok .closeBrace]]
  | .expressionStatement => [seq [sub .expression, tok .semicolon]]
  | .labeledStatement => [seq [tok .identifier, tok .colon, sub .statement]]
  | .assertStatement =>
    [seq [tok .assertWord, sub .expression, tok .semicolon],
      seq [tok .assertWord, sub .expression, tok .colon, sub .expression, tok .semicolon]]
  | .doStatement =>
    [seq [tok .doWord, sub .statement, tok .whileWord, sub .parenthesizedExpression,
      tok .semicolon]]
  | .breakStatement => [seq [tok .breakWord, opt (tok .identifier), tok .semicolon]]
  | .continueStatement => [seq [tok .continueWord, opt (tok .identifier), tok .semicolon]]
  | .returnStatement => [seq [tok .returnWord, opt (sub .expression), tok .semicolon]]
  | .yieldStatement => [seq [tok .yieldWord, sub .expression, tok .semicolon]]
  | .synchronizedStatement =>
    [seq [tok .synchronizedWord, sub .parenthesizedExpression, sub .block]]
  | .throwStatement => [seq [tok .throwWord, sub .expression, tok .semicolon]]
  | .tryStatement =>
    [seq [tok .tryWord, sub .block, sub .catchClauses],
      seq [tok .tryWord, sub .block, opt (sub .catchClauses), sub .finallyClause]]
  | .catchClause =>
    [seq [tok .catchWord, tok .openParen, sub .catchFormalParameter, tok .closeParen, sub .block]]
  | .catchFormalParameter => [seq [modifiersHere, sub .catchType, sub .variableDeclaratorId]]
  | .catchType => [seq [sub .unannotatedType, opt (sub .catchTypeTail)]]
  | .finallyClause => [seq [tok .finallyWord, sub .block]]
  | .tryWithResourcesStatement =>
    [seq [tok .tryWord, sub .resourceSpecification, sub .block, opt (sub .catchClauses),
      opt (sub .finallyClause)]]
  | .resourceSpecification =>
    [seq [tok .openParen, sub .resource, opt (sub .resourceTail), opt (tok .semicolon),
      tok .closeParen]]
  | .resource =>
    [seq [modifiersHere, sub .unannotatedType, sub .variableDeclaratorId, tok .assign,
        sub .expression],
      seq [tok .identifier], seq [sub .fieldAccess]]
  | .ifStatement =>
    [grouped 0 .right [tok .ifWord, sub .parenthesizedExpression, sub .statement],
      grouped 0 .right [tok .ifWord, sub .parenthesizedExpression, sub .statement, tok .elseWord,
        sub .statement]]
  | .whileStatement => [seq [tok .whileWord, sub .parenthesizedExpression, sub .statement]]
  | .forStatement =>
    let rest (start : List Part) : List Form :=
      [seq ([tok .forWord, tok .openParen] ++ start ++ [opt (sub .expression), tok .semicolon,
          tok .closeParen, sub .statement]),
        seq ([tok .forWord, tok .openParen] ++ start ++ [opt (sub .expression), tok .semicolon,
          sub .expression, opt (sub .forUpdateTail), tok .closeParen, sub .statement])]
    rest [sub .localVariableDeclaration] ++ rest [tok .semicolon] ++
      rest [sub .expression, opt (sub .forInitTail), tok .semicolon]
  | .enhancedForStatement =>
    [seq [tok .forWord, tok .openParen, modifiersHere, sub .unannotatedType,
      sub .variableDeclaratorId, tok .colon, sub .expression, tok .closeParen, sub .statement]]
  | .annotationItem => [seq [anyOf [sub .annotationMarker, sub .annotationCall]]]
  | .annotationMarker => [seq [tok .atSign, dottedName.as .name]]
  | .annotationCall => [seq [tok .atSign, dottedName.as .name, sub .annotationArgumentList]]
  | .annotationArgumentList =>
    [seq [tok .openParen, sub .elementValue, tok .closeParen],
      seq [tok .openParen, tok .closeParen],
      seq [tok .openParen, sub .elementValuePair, opt (sub .elementValuePairTail),
        tok .closeParen]]
  | .elementValuePair => [seq [anyIdentifier, tok .assign, sub .elementValue]]
  | .elementValue =>
    [leveled Level.elementValue [anyOf [sub .expression, sub .elementValueArrayInitializer,
      sub .annotationItem]]]
  | .elementValueArrayInitializer =>
    [seq [tok .openBrace, opt (tok .comma), tok .closeBrace],
      seq [tok .openBrace, sub .elementValue, opt (sub .elementValueTail), opt (tok .comma),
        tok .closeBrace]]
  | .declaration =>
    [leveled Level.declaration [anyOf [sub .moduleDeclaration, sub .packageDeclaration,
      sub .importDeclaration, sub .classDeclaration, sub .recordDeclaration,
      sub .interfaceDeclaration, sub .annotationTypeDeclaration, sub .enumDeclaration]]]
  | .moduleDeclaration =>
    [seq [annotationsHere, opt (tok .openWord), tok .moduleWord, dottedName.as .name,
      (sub .moduleBody).as .body]]
  | .moduleBody => [seq [tok .openBrace, opt (sub .moduleDirectives), tok .closeBrace]]
  | .moduleDirective =>
    [seq [anyOf [sub .requiresModuleDirective, sub .exportsModuleDirective,
      sub .opensModuleDirective, sub .usesModuleDirective, sub .providesModuleDirective]]]
  | .requiresModuleDirective =>
    [seq [tok .requiresWord, opt (sub .requiresModifiers), dottedName, tok .semicolon]]
  | .requiresModifier => [seq [anyOf [tok .transitiveWord, tok .staticWord]]]
  | .exportsModuleDirective =>
    [seq [tok .exportsWord, dottedName, tok .semicolon],
      seq [tok .exportsWord, dottedName, tok .toWord, dottedName, opt (sub .moduleNameTail),
        tok .semicolon]]
  | .opensModuleDirective =>
    [seq [tok .opensWord, dottedName, tok .semicolon],
      seq [tok .opensWord, dottedName, tok .toWord, dottedName, opt (sub .moduleNameTail),
        tok .semicolon]]
  | .usesModuleDirective => [seq [tok .usesWord, dottedName, tok .semicolon]]
  | .providesModuleDirective =>
    [seq [tok .providesWord, dottedName, tok .withWord, dottedName, opt (sub .providerTail),
      tok .semicolon]]
  | .packageDeclaration =>
    [seq [annotationsHere, tok .packageWord, dottedName, tok .semicolon]]
  | .importDeclaration =>
    [seq [tok .importWord, opt (tok .staticWord), dottedName, tok .semicolon],
      seq [tok .importWord, opt (tok .staticWord), dottedName, tok .dot, sub .asterisk,
        tok .semicolon]]
  | .asterisk => [seq [tok .star]]
  | .enumDeclaration =>
    [seq [modifiersHere, tok .enumWord, (tok .identifier).as .name,
      opt ((sub .superInterfaces).as .interfaces), (sub .enumBody).as .body]]
  | .enumBody =>
    [seq [tok .openBrace, opt (tok .comma), opt (sub .enumBodyDeclarations), tok .closeBrace],
      seq [tok .openBrace, sub .enumConstant, opt (sub .enumConstantTail), opt (tok .comma),
        opt (sub .enumBodyDeclarations), tok .closeBrace]]
  | .enumBodyDeclarations => [seq [tok .semicolon, opt (sub .classBodyDeclarations)]]
  | .enumConstant =>
    [seq [modifiersHere, (tok .identifier).as .name, opt (sub .argumentList),
      opt ((sub .classBody).as .body)]]
  | .classDeclaration =>
    [seq [modifiersHere, tok .classWord, (tok .identifier).as .name, opt (sub .typeParameters),
      opt (sub .superclass), opt ((sub .superInterfaces).as .interfaces), opt (sub .permits),
      (sub .classBody).as .body]]
  | .modifiers => [seq [sub .modifierList]]
  | .typeParameters =>
    [seq [tok .less, sub .typeParameter, opt (sub .typeParameterTail), tok .greater]]
  | .typeParameter => [seq [annotationsHere, typeName, opt (sub .typeBound)]]
  | .typeBound => [seq [tok .extendsWord, sub .anyType, opt (sub .boundTail)]]
  | .superclass => [seq [tok .extendsWord, sub .anyType]]
  | .superInterfaces => [seq [tok .implementsWord, sub .typeList]]
  | .typeList => [seq [sub .anyType, opt (sub .typeTail)]]
  | .permits => [seq [tok .permitsWord, sub .typeList]]
  | .classBody => [seq [tok .openBrace, opt (sub .classBodyDeclarations), tok .closeBrace]]
  | .staticInitializer => [seq [tok .staticWord, sub .block]]
  | .constructorDeclaration =>
    [seq [modifiersHere, sub .constructorDeclarator, opt (sub .throws),
      (sub .constructorBody).as .body]]
  | .constructorDeclarator =>
    [seq [opt (sub .typeParameters), (tok .identifier).as .name,
      (sub .formalParameters).as .parameters]]
  | .constructorBody =>
    [seq [tok .openBrace, opt (sub .explicitConstructorInvocation), opt (sub .statements),
      tok .closeBrace]]
  | .explicitConstructorInvocation =>
    [seq [opt (sub .typeArguments), anyOf [tok .thisWord, tok .superWord], sub .argumentList,
        tok .semicolon],
      seq [sub .primaryExpression, tok .dot, opt (sub .typeArguments), tok .superWord,
        sub .argumentList, tok .semicolon]]
  | .scopedIdentifier => [seq [dottedName, tok .dot, (tok .identifier).as .name]]
  | .fieldDeclaration =>
    [seq [modifiersHere, (sub .unannotatedType).as .type, sub .variableDeclaratorList,
      tok .semicolon]]
  | .recordDeclaration =>
    [seq [modifiersHere, tok .recordWord, (tok .identifier).as .name, opt (sub .typeParameters),
      (sub .formalParameters).as .parameters, opt ((sub .superInterfaces).as .interfaces),
      (sub .classBody).as .body]]
  | .annotationTypeDeclaration =>
    [seq [modifiersHere, tok .atInterface, (tok .identifier).as .name,
      (sub .annotationTypeBody).as .body]]
  | .annotationTypeBody =>
    [seq [tok .openBrace, opt (sub .annotationTypeMembers), tok .closeBrace]]
  | .annotationTypeElementDeclaration =>
    [seq [modifiersHere, (sub .unannotatedType).as .type, anyIdentifier.as .name, tok .openParen,
      tok .closeParen, opt ((sub .dimensions).as .dimensions), opt (sub .defaultValue),
      tok .semicolon]]
  | .defaultValue => [seq [tok .defaultWord, sub .elementValue]]
  | .interfaceDeclaration =>
    [seq [modifiersHere, tok .interfaceWord, (tok .identifier).as .name, opt (sub .typeParameters),
      opt (sub .extendsInterfaces), opt (sub .permits), (sub .interfaceBody).as .body]]
  | .extendsInterfaces => [seq [tok .extendsWord, sub .typeList]]
  | .interfaceBody => [seq [tok .openBrace, opt (sub .interfaceMembers), tok .closeBrace]]
  | .constantDeclaration =>
    [seq [modifiersHere, (sub .unannotatedType).as .type, sub .variableDeclaratorList,
      tok .semicolon]]
  | .variableDeclaratorList => [seq [sub .variableDeclarator, opt (sub .variableDeclaratorTail)]]
  | .variableDeclarator =>
    [seq [sub .variableDeclaratorId],
      seq [sub .variableDeclaratorId, tok .assign, variableInitializer]]
  | .variableDeclaratorId =>
    [seq [(anyOf [tok .identifier, sub .reservedIdentifier, tok .underscore]).as .name,
      opt ((sub .dimensions).as .dimensions)]]
  | .arrayInitializer =>
    [seq [tok .openBrace, opt (tok .comma), tok .closeBrace],
      seq [tok .openBrace, variableInitializer, opt (sub .variableInitializerTail),
        opt (tok .comma), tok .closeBrace]]
  | .anyType => [seq [anyOf [sub .unannotatedType, sub .annotatedType]]]
  | .unannotatedType => [seq [anyOf [simpleType, sub .arrayType]]]
  | .annotatedType => [seq [sub .annotations, sub .unannotatedType]]
  | .scopedTypeIdentifier =>
    [seq [anyOf [typeName, sub .scopedTypeIdentifier, sub .genericType], tok .dot,
      annotationsHere, typeName]]
  | .genericType =>
    [biased 10 [anyOf [typeName, sub .scopedTypeIdentifier], sub .typeArguments]]
  | .arrayType => [seq [sub .unannotatedType, (sub .dimensions).as .dimensions]]
  | .integralType =>
    [seq [anyOf [tok .byteWord, tok .shortWord, tok .intWord, tok .longWord, tok .charWord]]]
  | .floatingPointType => [seq [anyOf [tok .floatWord, tok .doubleWord]]]
  | .methodHeader =>
    [seq [(sub .unannotatedType).as .type, sub .methodDeclarator, opt (sub .throws)],
      seq [sub .typeParameters, annotationsHere, (sub .unannotatedType).as .type,
        sub .methodDeclarator, opt (sub .throws)]]
  | .methodDeclarator =>
    [seq [anyIdentifier.as .name, (sub .formalParameters).as .parameters,
      opt ((sub .dimensions).as .dimensions)]]
  | .formalParameters =>
    [seq [tok .openParen, sub .receiverParameter, tok .closeParen],
      seq [tok .openParen, tok .closeParen],
      seq [tok .openParen, parameter, opt (sub .parameterTail), tok .closeParen],
      seq [tok .openParen, sub .receiverParameter, tok .comma, tok .closeParen],
      seq [tok .openParen, sub .receiverParameter, tok .comma, parameter,
        opt (sub .parameterTail), tok .closeParen]]
  | .formalParameter =>
    [seq [modifiersHere, (sub .unannotatedType).as .type, sub .variableDeclaratorId]]
  | .receiverParameter =>
    [seq [annotationsHere, sub .unannotatedType, opt (sub .receiverPath), tok .thisWord]]
  | .spreadParameter =>
    [seq [modifiersHere, sub .unannotatedType, tok .ellipsis, annotationsHere,
      sub .variableDeclarator]]
  | .throws => [seq [tok .throwsWord, sub .anyType, opt (sub .typeTail)]]
  | .localVariableDeclaration =>
    [seq [modifiersHere, (sub .unannotatedType).as .type, sub .variableDeclaratorList,
      tok .semicolon]]
  | .methodDeclaration =>
    [seq [modifiersHere, sub .methodHeader, anyOf [(sub .block).as .body, tok .semicolon]]]
  | .compactConstructorDeclaration =>
    [seq [modifiersHere, (tok .identifier).as .name, (sub .block).as .body]]
  | .reservedIdentifier =>
    [leveled (-3) [(anyOf [tok .openWord, tok .moduleWord, tok .recordWord, tok .withWord,
        tok .sealedWord]).shownAs (.terminal .identifier)],
      seq [(tok .yieldWord).shownAs (.terminal .identifier)]]
  | .toplevelStatements => repeated .toplevelStatements [sub .toplevelStatement]
  | .stringParts =>
    repeated .stringParts
      [anyOf [tok .stringFragment, tok .escapeSequence, sub .stringInterpolation]]
  | .textBlockParts =>
    repeated .textBlockParts
      [anyOf [sub .textBlockFragment, sub .textBlockEscape, sub .stringInterpolation]]
  | .intersectionTail => repeated .intersectionTail [tok .ampersand, sub .anyType]
  | .inferredParameterTail => repeated .inferredParameterTail [tok .comma, anyIdentifier]
  | .annotations => repeated .annotations [sub .annotationItem]
  | .dimensionsExprs => repeated .dimensionsExprs [sub .dimensionsExpr]
  | .expressionTail => repeated .expressionTail [tok .comma, sub .expression]
  | .typeArgumentTail =>
    repeated .typeArgumentTail [tok .comma, anyOf [sub .anyType, sub .wildcard]]
  | .dimensionPairs =>
    repeated .dimensionPairs [annotationsHere, tok .openBracket, tok .closeBracket]
  | .switchGroups => repeated .switchGroups [sub .switchBlockStatementGroup]
  | .switchRules => repeated .switchRules [sub .switchRule]
  | .switchLabels => repeated .switchLabels [sub .switchLabel, tok .colon]
  | .statements => repeated .statements [sub .statement]
  | .recordPatternTail =>
    repeated .recordPatternTail
      [tok .comma, anyOf [sub .recordPatternComponent, sub .recordPattern]]
  | .catchClauses => repeated .catchClauses [sub .catchClause]
  | .catchTypeTail => repeated .catchTypeTail [tok .bar, sub .unannotatedType]
  | .resourceTail => repeated .resourceTail [tok .semicolon, sub .resource]
  | .forInitTail => repeated .forInitTail [tok .comma, sub .expression]
  | .forUpdateTail => repeated .forUpdateTail [tok .comma, sub .expression]
  | .elementValuePairTail => repeated .elementValuePairTail [tok .comma, sub .elementValuePair]
  | .elementValueTail => repeated .elementValueTail [tok .comma, sub .elementValue]
  | .moduleDirectives => repeated .moduleDirectives [sub .moduleDirective]
  | .requiresModifiers => repeated .requiresModifiers [sub .requiresModifier]
  | .moduleNameTail => repeated .moduleNameTail [tok .comma, dottedName]
  | .providerTail => repeated .providerTail [tok .comma, dottedName]
  | .enumConstantTail => repeated .enumConstantTail [tok .comma, sub .enumConstant]
  | .classBodyDeclarations =>
    repeated .classBodyDeclarations
      [anyOf [sub .fieldDeclaration, sub .recordDeclaration, sub .methodDeclaration,
        sub .compactConstructorDeclaration, sub .classDeclaration, sub .interfaceDeclaration,
        sub .annotationTypeDeclaration, sub .enumDeclaration, sub .block, sub .staticInitializer,
        sub .constructorDeclaration, tok .semicolon]]
  | .modifierList =>
    repeated .modifierList
      [anyOf [sub .annotationItem, tok .publicWord, tok .protectedWord, tok .privateWord,
        tok .abstractWord, tok .staticWord, tok .finalWord, tok .strictfpWord, tok .defaultWord,
        tok .synchronizedWord, tok .nativeWord, tok .transientWord, tok .volatileWord,
        tok .sealedWord, tok .nonSealedWord]]
  | .typeParameterTail => repeated .typeParameterTail [tok .comma, sub .typeParameter]
  | .boundTail => repeated .boundTail [tok .ampersand, sub .anyType]
  | .typeTail => repeated .typeTail [tok .comma, sub .anyType]
  | .annotationTypeMembers =>
    repeated .annotationTypeMembers
      [anyOf [sub .annotationTypeElementDeclaration, sub .constantDeclaration,
        sub .classDeclaration, sub .interfaceDeclaration, sub .enumDeclaration,
        sub .annotationTypeDeclaration, tok .semicolon]]
  | .interfaceMembers =>
    repeated .interfaceMembers
      [anyOf [sub .constantDeclaration, sub .enumDeclaration, sub .methodDeclaration,
        sub .classDeclaration, sub .interfaceDeclaration, sub .recordDeclaration,
        sub .annotationTypeDeclaration, tok .semicolon]]
  | .variableDeclaratorTail => repeated .variableDeclaratorTail [tok .comma, sub .variableDeclarator]
  | .variableInitializerTail => repeated .variableInitializerTail [tok .comma, variableInitializer]
  | .parameterTail => repeated .parameterTail [tok .comma, parameter]
  | .receiverPath => repeated .receiverPath [tok .identifier, tok .dot]

end EndpointAtlas.Grammar
