import ThreeAddress.Grammar.Pattern

/-!
# The PHP grammar

The part of PHP that is read, as a table from rules to definitions. Precedence is not
part of it: `expr` is a flat run of operands and operators, which is folded into a tree
afterwards. There are **no reserved words**: a text that fails as a statement may still
be a label, a constant or a call.

Parts that leave no node of their own are plain patterns above the table.
-/

namespace ThreeAddress.Grammar

open Pattern CharClass Definition Rule

/-- The characters that separate tokens. -/
def blank : Pattern :=
  firstOf [" ", "\t", "\r", "\n"]

/-- The end of a line. -/
def newline : Pattern :=
  firstOf ["\n", "\r\n", "\r"]

/-- A comment. One that starts with slashes or a hash ends with its line or at a close tag. -/
def comment : Pattern :=
  firstOf [sequence ["/*", many (sequence [notAhead "*/", any]), "*/"],
    sequence [firstOf ["//", "#"], many (sequence [notAhead (firstOf [newline, "?>"]), any])]]

/-- A semicolon, or a close tag that is left for what follows. -/
def endOfStatement : Pattern :=
  firstOf [";", ahead closeTag]

/-- Operators before an operand. -/
def prefixOperator : Pattern :=
  firstOf [cast, preInc, preDec, opNeg, opPos, opNot, opBitNot, opSilence, opClone, opPrint,
    opYieldFrom, opYield, opInclude]

/-- Operators after an operand. -/
def postfixOperator : Pattern :=
  firstOf [postInc, postDec, instanceofOp]

/-- Operators between operands; a longer one comes before its beginnings. -/
def infixOperator : Pattern :=
  firstOf [opAssignRef, opAssign, opCoalesce, opTernary, opBoolOr, opBoolAnd, opEquality,
    opCompare, opShift, opPow, opBitOr, opBitXor, opBitAnd, opConcat, opAdditive,
    opMultiplicative, opOrKw, opXorKw, opAndKw]

/-- What an operand starts with. -/
def atom : Pattern :=
  firstOf [closure, arrowFn, newExpr, issetExpr, emptyExpr, exitExpr, evalExpr, listExpr,
    arrayLong, arrayLiteral, magicConst, float, integer, stringSingle, stringDouble, nowdoc,
    heredoc, shellExec, variableName, varVar, qualifiedName, parenExpr]

/-- What may follow the start of an operand: a call, an index or a member. -/
def accessor : Pattern :=
  firstOf [callArgs, dimAccess, propAccess, nullsafeAccess, staticMember]

/-- Blanks that may stand before the label that closes a heredoc. -/
def indent : Pattern :=
  firstOf [" ", "\t"]

/-- The line end and the label that close a heredoc, seen from its text. -/
def heredocEnds : Pattern :=
  sequence [newline, many indent, .peek, wordEnd]

/-- The line end and the label that close a heredoc. -/
def heredocEnd : Pattern :=
  sequence [newline, many indent, .pop, wordEnd]

/-- The definition of every rule. -/
def Rule.definition : Rule → Definition
  | .eoi => plain .finish
  | .keyword k => atomic <| word k.word
  | .identifier => atomic <| sequence [firstOf [letter, "_"], many wordChar]
  | .qualifiedName => atomic <|
      sequence [maybe "\\", identifier, many (sequence ["\\", identifier])]
  | .variableName => atomic <| sequence ["$", identifier]
  | .script => plain <|
      sequence [.start, maybe inlineHtml,
        maybe (sequence [openTag, many statement,
          maybe (sequence [closeTag, maybe inlineHtml])]), eoi]
  | .openTag => atomic <| sequence ["<?php", wordEnd]
  | .closeTag => atomic <| "?>"
  | .inlineHtml => atomic <| many1 (sequence [notAhead openTag, any])
  | .statement => plain <|
      firstOf [block, ifStmt, whileStmt, doStmt, forStmt, foreachStmt, switchStmt, breakStmt,
        continueStmt, returnStmt, echoStmt, globalStmt, staticStmt, unsetStmt, throwStmt,
        tryStmt, functionDecl, classDecl, interfaceDecl, traitDecl, namespaceStmt, useStmt,
        constStmt, declareStmt, gotoStmt, inlineHtmlStmt, nopStmt, labelStmt, expressionStmt]
  | .block => plain <| sequence ["\x7b", many statement, "\x7d"]
  | .ifStmt => plain <|
      sequence [keyword .ifKw, "(", expr, ")", statement, many elseifClause,
        maybe elseClause]
  | .elseifClause => plain <| sequence [keyword .elseifKw, "(", expr, ")", statement]
  | .elseClause => plain <| sequence [keyword .elseKw, statement]
  | .whileStmt => plain <| sequence [keyword .whileKw, "(", expr, ")", statement]
  | .doStmt => plain <|
      sequence [keyword .doKw, statement, keyword .whileKw, "(", expr, ")", endOfStatement]
  | .forStmt => plain <|
      sequence [keyword .forKw, "(", forClause, ";", forClause, ";", forClause, ")", statement]
  | .forClause => plain <| maybe (commaList expr)
  | .foreachStmt => plain <|
      sequence [keyword .foreachKw, "(", expr, keyword .asKw, foreachBinding, ")", statement]
  | .foreachBinding => plain <|
      firstOf [sequence [byRef, expr], sequence [expr, maybe foreachValue]]
  | .foreachValue => plain <| sequence ["=>", maybe byRef, expr]
  | .switchStmt => plain <|
      sequence [keyword .switchKw, "(", expr, ")", "\x7b", many caseClause, "\x7d"]
  | .caseClause => plain <|
      sequence [firstOf [sequence [keyword .caseKw, expr], keyword .defaultKw],
        firstOf [":", ";"],
        many (sequence [notAhead (firstOf [keyword .caseKw, keyword .defaultKw]), statement])]
  | .breakStmt => plain <| sequence [keyword .breakKw, maybe integer, endOfStatement]
  | .continueStmt => plain <| sequence [keyword .continueKw, maybe integer, endOfStatement]
  | .returnStmt => plain <| sequence [keyword .returnKw, maybe expr, endOfStatement]
  | .echoStmt => plain <| sequence [keyword .echoKw, commaList expr, endOfStatement]
  | .globalStmt => plain <| sequence [keyword .globalKw, commaList variableName, endOfStatement]
  | .staticStmt => plain <| sequence [keyword .staticKw, commaList staticItem, endOfStatement]
  | .staticItem => plain <| sequence [variableName, maybe (sequence ["=", expr])]
  | .unsetStmt => plain <|
      sequence [keyword .unsetKw, "(", commaList expr, maybe ",", ")", endOfStatement]
  | .throwStmt => plain <| sequence [keyword .throwKw, expr, endOfStatement]
  | .tryStmt => plain <|
      sequence [keyword .tryKw, block, many catchClause, maybe finallyClause]
  | .catchClause => plain <|
      sequence [keyword .catchKw, "(", qualifiedName, many (sequence ["|", qualifiedName]),
        maybe variableName, ")", block]
  | .finallyClause => plain <| sequence [keyword .finallyKw, block]
  | .namespaceStmt => plain <|
      sequence [keyword .namespaceKw, maybe qualifiedName, firstOf [block, endOfStatement]]
  | .useStmt => plain <|
      sequence [keyword .useKw, maybe useKind, firstOf [useGroup, commaList useItem],
        endOfStatement]
  | .useKind => plain <| firstOf [keyword .functionKw, keyword .constKw]
  | .useItem => plain <|
      sequence [qualifiedName, maybe (sequence [keyword .asKw, identifier])]
  | .useGroup => plain <|
      sequence [groupPrefix, "\x7b", commaList useGroupItem, maybe ",", "\x7d"]
  | .groupPrefix => atomic <|
      sequence [maybe "\\", identifier, many (sequence ["\\", identifier]), "\\"]
  | .useGroupItem => plain <| sequence [maybe useKind, useItem]
  | .constStmt => plain <| sequence [keyword .constKw, commaList constItem, endOfStatement]
  | .constItem => plain <| sequence [identifier, "=", expr]
  | .declareStmt => plain <|
      sequence [keyword .declareKw, "(", commaList constItem, ")", endOfStatement]
  | .gotoStmt => plain <| sequence [keyword .gotoKw, identifier, endOfStatement]
  | .labelStmt => plain <| sequence [identifier, ":", notAhead ":"]
  | .inlineHtmlStmt => compound <| sequence [closeTag, inlineText, openTag]
  | .inlineText => atomic <| many (sequence [notAhead openTag, any])
  | .nopStmt => plain <| ";"
  | .expressionStmt => plain <| sequence [expr, endOfStatement]
  | .functionDecl => plain <|
      sequence [keyword .functionKw, maybe byRef, identifier, "(", maybe paramList, ")",
        maybe returnType, block]
  | .paramList => plain <| sequence [commaList param, maybe ","]
  | .param => plain <|
      sequence [many memberModifier, maybe typeHint, maybe byRef, maybe variadic,
        variableName, maybe (sequence ["=", expr])]
  | .variadic => plain <| "..."
  | .byRef => plain <| "&"
  | .typeHint => plain <|
      sequence [maybe "?", typeAtom, many (sequence [firstOf ["|", "&"], typeAtom])]
  | .typeAtom => plain <| firstOf [qualifiedName, sequence ["(", typeHint, ")"]]
  | .returnType => plain <| sequence [":", typeHint]
  | .classDecl => plain <|
      sequence [many classModifier, keyword .classKw, identifier, maybe extendsClause,
        maybe implementsClause, classBody]
  | .classModifier => plain <|
      firstOf [keyword .abstractKw, keyword .finalKw, keyword .readonlyKw]
  | .extendsClause => plain <| sequence [keyword .extendsKw, qualifiedName]
  | .implementsClause => plain <| sequence [keyword .implementsKw, nameList]
  | .nameList => plain <| commaList qualifiedName
  | .interfaceDecl => plain <|
      sequence [keyword .interfaceKw, identifier,
        maybe (sequence [keyword .extendsKw, nameList]), classBody]
  | .traitDecl => plain <| sequence [keyword .traitKw, identifier, classBody]
  | .classBody => plain <| sequence ["\x7b", many classMember, "\x7d"]
  | .classMember => plain <| firstOf [traitUse, classConst, methodDecl, propertyDecl]
  | .traitUse => plain <|
      sequence [keyword .useKw, nameList, firstOf [traitRules, endOfStatement]]
  | .traitRules => plain <| sequence ["\x7b", many (sequence [notAhead "\x7d", any]), "\x7d"]
  | .classConst => plain <|
      sequence [many memberModifier, keyword .constKw, commaList constItem, endOfStatement]
  | .methodDecl => plain <|
      sequence [many memberModifier, keyword .functionKw, maybe byRef, identifier, "(",
        maybe paramList, ")", maybe returnType, firstOf [block, endOfStatement]]
  | .propertyDecl => plain <|
      sequence [firstOf [many1 memberModifier, keyword .varKw], maybe typeHint,
        commaList propertyItem, endOfStatement]
  | .propertyItem => plain <| sequence [variableName, maybe (sequence ["=", expr])]
  | .memberModifier => plain <|
      firstOf [keyword .publicKw, keyword .protectedKw, keyword .privateKw, keyword .staticKw,
        keyword .abstractKw, keyword .finalKw, keyword .readonlyKw]
  | .expr => plain <|
      sequence [many prefixOperator, operand, many postfixOperator,
        many (sequence [infixOperator, many prefixOperator, operand, many postfixOperator])]
  | .cast => plain <| sequence ["(", castType, ")"]
  | .castType => atomic <|
      wordOf ["integer", "int", "boolean", "bool", "float", "double", "real", "string",
        "binary", "array", "object", "unset"]
  | .preInc => atomic <| "++"
  | .preDec => atomic <| "--"
  | .opNeg => atomic <| "-"
  | .opPos => atomic <| "+"
  | .opNot => atomic <| "!"
  | .opBitNot => atomic <| "~"
  | .opSilence => atomic <| "@"
  | .opClone => atomic <| word "clone"
  | .opPrint => atomic <| word "print"
  | .opYieldFrom => plain <| sequence [keyword .yieldKw, keyword .fromKw]
  | .opYield => atomic <| word "yield"
  | .opInclude => atomic <| wordOf ["include_once", "include", "require_once", "require"]
  | .postInc => atomic <| "++"
  | .postDec => atomic <| "--"
  | .instanceofOp => plain <| sequence [keyword .instanceofKw, classRef]
  | .opAssignRef => plain <| sequence ["=", "&"]
  | .opAssign => atomic <|
      firstOf ["**=", "??=", "<<=", ">>=", "+=", "-=", "*=", "/=", ".=", "%=", "&=", "|=", "^=",
        sequence ["=", notAhead (firstOf ["=", ">"])]]
  | .opCoalesce => atomic <| "??"
  | .opTernary => plain <| sequence [notAhead (firstOf ["?->", "?>"]), "?", maybe expr, ":"]
  | .opBoolOr => atomic <| "||"
  | .opBoolAnd => atomic <| "&&"
  | .opEquality => atomic <| firstOf ["===", "!==", "==", "!=", "<=>", "<>"]
  | .opCompare => atomic <|
      firstOf ["<=", ">=", sequence ["<", notAhead "<"], sequence [">", notAhead ">"]]
  | .opShift => atomic <| firstOf ["<<", ">>"]
  | .opPow => atomic <| "**"
  | .opBitOr => atomic <| "|"
  | .opBitXor => atomic <| "^"
  | .opBitAnd => atomic <| "&"
  | .opConcat => atomic <| sequence [".", notAhead "."]
  | .opAdditive => atomic <| firstOf ["+", "-"]
  | .opMultiplicative => atomic <| firstOf ["*", "/", "%"]
  | .opOrKw => atomic <| word "or"
  | .opXorKw => atomic <| word "xor"
  | .opAndKw => atomic <| word "and"
  | .operand => plain <| sequence [atom, many accessor]
  | .callArgs => plain <|
      sequence ["(", maybe (sequence [commaList argument, maybe ","]), ")"]
  | .argument => plain <| firstOf [spreadArg, namedArg, expr]
  | .spreadArg => plain <| sequence ["...", expr]
  | .namedArg => plain <| sequence [identifier, ":", notAhead ":", expr]
  | .dimAccess => plain <| sequence ["[", maybe expr, "]"]
  | .propAccess => plain <| sequence ["->", memberName]
  | .nullsafeAccess => plain <| sequence ["?->", memberName]
  | .staticMember => plain <| sequence ["::", firstOf [variableName, braceExpr, identifier]]
  | .memberName => plain <| firstOf [identifier, variableName, braceExpr]
  | .braceExpr => plain <| sequence ["\x7b", expr, "\x7d"]
  | .parenExpr => plain <| sequence ["(", expr, ")"]
  | .varVar => plain <| sequence ["$", firstOf [variableName, varVar, braceExpr]]
  | .closure => plain <|
      sequence [maybe (keyword .staticKw), keyword .functionKw, maybe byRef, "(",
        maybe paramList, ")", maybe closureUses, maybe returnType, block]
  | .closureUses => plain <|
      sequence [keyword .useKw, "(", commaList closureUse, maybe ",", ")"]
  | .closureUse => plain <| sequence [maybe byRef, variableName]
  | .arrowFn => plain <|
      sequence [maybe (keyword .staticKw), keyword .fnKw, maybe byRef, "(",
        maybe paramList, ")", maybe returnType, "=>", expr]
  | .newExpr => plain <|
      sequence [keyword .newKw,
        firstOf [anonymousClass, sequence [classRef, maybe callArgs]]]
  | .anonymousClass => plain <|
      sequence [keyword .classKw, maybe callArgs, maybe extendsClause,
        maybe implementsClause, classBody]
  | .classRef => plain <| firstOf [qualifiedName, dynamicClass, parenExpr]
  | .dynamicClass => plain <|
      sequence [firstOf [variableName, varVar],
        many (firstOf [propAccess, nullsafeAccess, staticMember, dimAccess])]
  | .issetExpr => plain <| sequence [keyword .issetKw, "(", commaList expr, maybe ",", ")"]
  | .emptyExpr => plain <| sequence [keyword .emptyKw, "(", expr, ")"]
  | .exitExpr => plain <|
      sequence [firstOf [keyword .exitKw, keyword .dieKw],
        maybe (sequence ["(", maybe expr, ")"])]
  | .evalExpr => plain <| sequence [keyword .evalKw, "(", expr, ")"]
  | .listExpr => plain <| sequence [keyword .listKw, "(", arrayItems, ")"]
  | .arrayLong => plain <| sequence [keyword .arrayKw, "(", arrayItems, ")"]
  | .arrayLiteral => plain <| sequence ["[", arrayItems, "]"]
  | .arrayItems => plain <| commaList arraySlot
  | .arraySlot => plain <| maybe arrayItem
  | .arrayItem => plain <| firstOf [spreadItem, refItem, sequence [expr, maybe arrayValue]]
  | .spreadItem => plain <| sequence ["...", expr]
  | .refItem => plain <| sequence [byRef, expr]
  | .arrayValue => plain <| sequence ["=>", maybe byRef, expr]
  | .magicConst => atomic <|
      wordOf ["__LINE__", "__FILE__", "__DIR__", "__FUNCTION__", "__CLASS__", "__TRAIT__",
        "__METHOD__", "__NAMESPACE__"]
  | .digits => atomic <| sequence [digit, many (sequence [maybe "_", digit])]
  | .exponent => atomic <| sequence [firstOf ["e", "E"], maybe (firstOf ["+", "-"]), digits]
  | .float => atomic <|
      firstOf [sequence [digits, ".", maybe digits, maybe exponent],
        sequence [".", digits, maybe exponent], sequence [digits, exponent]]
  | .integer => atomic <|
      firstOf [sequence [firstOf ["0x", "0X"], hexDigit,
          many (sequence [maybe "_", hexDigit])],
        sequence [firstOf ["0b", "0B"], binaryDigit,
          many (sequence [maybe "_", binaryDigit])],
        sequence [firstOf ["0o", "0O"], octalDigit, many (sequence [maybe "_", octalDigit])],
        digits]
  | .stringSingle => atomic <|
      sequence ["'", many (firstOf [sequence ["\\", any], sequence [notAhead "'", any]]), "'"]
  | .stringDouble => compound <|
      sequence ["\"", many (firstOf [braceInterp, simpleInterp, quotedText]), "\""]
  | .quotedText => atomic <|
      many1 (firstOf [sequence ["\\", any], sequence ["$", notAhead (firstOf [letter, "_"])],
        sequence ["\x7b", notAhead "$"],
        sequence [notAhead (firstOf ["\"", "\\", "$", "\x7b"]), any]])
  | .braceInterp => spaced <| sequence ["\x7b", ahead "$", expr, "\x7d"]
  | .simpleInterp => compound <|
      sequence [variableName, maybe (firstOf [interpIndex, interpProp])]
  | .interpIndex => compound <|
      sequence ["[", firstOf [interpOffset, variableName, interpKey], "]"]
  | .interpOffset => atomic <| sequence [maybe "-", many1 digit]
  | .interpKey => atomic <| sequence [firstOf [letter, "_"], many wordChar]
  | .interpProp => compound <| sequence ["->", interpKey]
  | .heredocLabel => atomic <| sequence [firstOf [letter, "_"], many wordChar]
  | .heredoc => compound <|
      sequence ["<<<", many indent, maybe "\"", .push heredocLabel, maybe "\"",
        firstOf [heredocEnd,
          sequence [newline, many (firstOf [braceInterp, simpleInterp, heredocText]),
            heredocEnd]]]
  | .heredocText => atomic <|
      many1 (sequence [notAhead heredocEnds,
        firstOf [sequence ["\\", any], sequence ["$", notAhead (firstOf [letter, "_"])],
          sequence ["\x7b", notAhead "$"],
          sequence [notAhead (firstOf ["$", "\x7b", "\\"]), any]]])
  | .nowdoc => compound <|
      sequence ["<<<", many indent, "'", .push heredocLabel, "'",
        firstOf [heredocEnd, sequence [newline, nowdocText, heredocEnd]]]
  | .nowdocText => atomic <| many1 (sequence [notAhead heredocEnds, any])
  | .shellExec => compound <|
      sequence ["`", many (firstOf [braceInterp, simpleInterp, backtickText]), "`"]
  | .backtickText => atomic <|
      many1 (firstOf [sequence ["\\", any], sequence ["$", notAhead (firstOf [letter, "_"])],
        sequence ["\x7b", notAhead "$"],
        sequence [notAhead (firstOf ["`", "\\", "$", "\x7b"]), any]])

end ThreeAddress.Grammar
