/-!
The words, marks and literals of Java source text. Their order is the order in which a repair tries
them as a missing token.
-/

namespace EndpointAtlas.Grammar

inductive Terminal where
  | endOfInput
  | identifier
  | decimalInteger | hexInteger | octalInteger | binaryInteger | decimalFloat | hexFloat
  | trueWord | falseWord
  | characterLiteral
  | quote | tripleQuote | stringFragment | textBlockRun | textBlockQuoted
  | openInterpolation | closeBrace
  | otherEscape | escapeSequence
  | nullWord
  | openParen | closeParen | ampersand
  | assign | plusAssign | minusAssign | timesAssign | divideAssign | andAssign | orAssign | xorAssign
  | remainderAssign | shiftLeftAssign | shiftRightAssign | unsignedShiftAssign
  | greater | less | greaterEqual | lessEqual | equalTo | notEqual | andAnd | orOr
  | plus | minus | star | slash | bar | caret | percent
  | shiftLeft | shiftRight | unsignedShift
  | instanceofWord | finalWord
  | arrow | comma | question | colon | bang | tilde | increment | decrement
  | newWord | openBracket | closeBracket | dot | classWord | doubleColon
  | extendsWord | switchWord | openBrace | caseWord | defaultWord
  | underscore | whenWord | semicolon
  | assertWord | doWord | whileWord | breakWord | continueWord | returnWord | yieldWord
  | synchronizedWord | throwWord | tryWord | catchWord | finallyWord | ifWord | elseWord | forWord
  | atSign | openWord | moduleWord | requiresWord | transitiveWord | staticWord | exportsWord | toWord
  | opensWord | usesWord | providesWord | withWord | packageWord | importWord
  | enumWord | publicWord | protectedWord | privateWord | abstractWord | strictfpWord | nativeWord
  | transientWord | volatileWord | sealedWord | nonSealedWord
  | implementsWord | permitsWord | recordWord | atInterface | interfaceWord
  | byteWord | shortWord | intWord | longWord | charWord | floatWord | doubleWord
  | booleanWord | voidWord
  | ellipsis | throwsWord | thisWord | superWord
  | lineComment | blockComment
  deriving DecidableEq, Repr, Inhabited

namespace Terminal

/-- The fixed spelling of a terminal; literals, identifiers, comments and the pieces of a string have
none. -/
def spelling? : Terminal → Option String
  | trueWord => some "true"
  | falseWord => some "false"
  | quote => some "\""
  | tripleQuote => some "\"\"\""
  | openInterpolation => some "\\\x7b"
  | closeBrace => some "\x7d"
  | nullWord => some "null"
  | openParen => some "("
  | closeParen => some ")"
  | ampersand => some "&"
  | assign => some "="
  | plusAssign => some "+="
  | minusAssign => some "-="
  | timesAssign => some "*="
  | divideAssign => some "/="
  | andAssign => some "&="
  | orAssign => some "|="
  | xorAssign => some "^="
  | remainderAssign => some "%="
  | shiftLeftAssign => some "<<="
  | shiftRightAssign => some ">>="
  | unsignedShiftAssign => some ">>>="
  | greater => some ">"
  | less => some "<"
  | greaterEqual => some ">="
  | lessEqual => some "<="
  | equalTo => some "=="
  | notEqual => some "!="
  | andAnd => some "&&"
  | orOr => some "||"
  | plus => some "+"
  | minus => some "-"
  | star => some "*"
  | slash => some "/"
  | bar => some "|"
  | caret => some "^"
  | percent => some "%"
  | shiftLeft => some "<<"
  | shiftRight => some ">>"
  | unsignedShift => some ">>>"
  | instanceofWord => some "instanceof"
  | finalWord => some "final"
  | arrow => some "->"
  | comma => some ","
  | question => some "?"
  | colon => some ":"
  | bang => some "!"
  | tilde => some "~"
  | increment => some "++"
  | decrement => some "--"
  | newWord => some "new"
  | openBracket => some "["
  | closeBracket => some "]"
  | dot => some "."
  | classWord => some "class"
  | doubleColon => some "::"
  | extendsWord => some "extends"
  | switchWord => some "switch"
  | openBrace => some "\x7b"
  | caseWord => some "case"
  | defaultWord => some "default"
  | underscore => some "_"
  | whenWord => some "when"
  | semicolon => some ";"
  | assertWord => some "assert"
  | doWord => some "do"
  | whileWord => some "while"
  | breakWord => some "break"
  | continueWord => some "continue"
  | returnWord => some "return"
  | yieldWord => some "yield"
  | synchronizedWord => some "synchronized"
  | throwWord => some "throw"
  | tryWord => some "try"
  | catchWord => some "catch"
  | finallyWord => some "finally"
  | ifWord => some "if"
  | elseWord => some "else"
  | forWord => some "for"
  | atSign => some "@"
  | openWord => some "open"
  | moduleWord => some "module"
  | requiresWord => some "requires"
  | transitiveWord => some "transitive"
  | staticWord => some "static"
  | exportsWord => some "exports"
  | toWord => some "to"
  | opensWord => some "opens"
  | usesWord => some "uses"
  | providesWord => some "provides"
  | withWord => some "with"
  | packageWord => some "package"
  | importWord => some "import"
  | enumWord => some "enum"
  | publicWord => some "public"
  | protectedWord => some "protected"
  | privateWord => some "private"
  | abstractWord => some "abstract"
  | strictfpWord => some "strictfp"
  | nativeWord => some "native"
  | transientWord => some "transient"
  | volatileWord => some "volatile"
  | sealedWord => some "sealed"
  | nonSealedWord => some "non-sealed"
  | implementsWord => some "implements"
  | permitsWord => some "permits"
  | recordWord => some "record"
  | atInterface => some "@interface"
  | interfaceWord => some "interface"
  | byteWord => some "byte"
  | shortWord => some "short"
  | intWord => some "int"
  | longWord => some "long"
  | charWord => some "char"
  | floatWord => some "float"
  | doubleWord => some "double"
  | booleanWord => some "boolean"
  | voidWord => some "void"
  | ellipsis => some "..."
  | throwsWord => some "throws"
  | thisWord => some "this"
  | superWord => some "super"
  | endOfInput | identifier | decimalInteger | hexInteger | octalInteger | binaryInteger
  | decimalFloat | hexFloat | characterLiteral | stringFragment | textBlockRun | textBlockQuoted
  | otherEscape | escapeSequence | lineComment | blockComment => none

/-- Every terminal, in repair order. -/
def all : List Terminal := (List.range 138).map Terminal.ofNat

theorem mem_all (t : Terminal) : t ∈ all := by cases t <;> decide

def index (t : Terminal) : Nat := t.ctorIdx

end Terminal

end EndpointAtlas.Grammar
