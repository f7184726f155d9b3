/-!
# Token.Kind — keywords, punctuation and the other kinds of token

The reserved words and the punctuation marks are closed lists with a fixed spelling each (`Keyword.text`,
`Punctuation.text`); a token is of one of them, a name, a literal, a character that fits nowhere, or the end of the
file.  `TokenKind.name` is the name under which a kind is shown.
-/
namespace Downlevel

/-- The reserved words. -/
inductive Keyword where
  | breakKw | caseKw | catchKw | continueKw | debuggerKw | defaultKw | deleteKw | doKw | elseKw | falseKw
  | finallyKw | forKw | functionKw | ifKw | inKw | instanceOfKw | newKw | nullKw | returnKw | switchKw | thisKw
  | throwKw | trueKw | tryKw | typeOfKw | varKw | voidKw | whileKw | withKw | classKw | constKw | enumKw
  | exportKw | extendsKw | importKw | superKw | implementsKw | interfaceKw | letKw | packageKw | privateKw
  | protectedKw | publicKw | staticKw | yieldKw
  deriving DecidableEq, Repr

/-- The punctuation marks and operators. -/
inductive Punctuation where
  | openBrace | closeBrace | openParen | closeParen | openBracket | closeBracket | dot | dotDotDot | semicolon
  | comma | lessThan | greaterThan | lessThanEquals | greaterThanEquals | equalsEquals | equalsGreaterThan
  | exclamationEquals | equalsEqualsEquals | exclamationEqualsEquals | plus | minus | asterisk | percent
  | plusPlus | minusMinus | lessThanLessThan | greaterThanGreaterThan | greaterThanGreaterThanGreaterThan
  | ampersand | bar | caret | exclamation | tilde | ampersandAmpersand | barBar | question | colon | equals
  | plusEquals | minusEquals | asteriskEquals | percentEquals | lessThanLessThanEquals
  | greaterThanGreaterThanEquals | greaterThanGreaterThanGreaterThanEquals | ampersandEquals | barEquals
  | caretEquals | slash | slashEquals
  deriving DecidableEq, Repr

/-- What a token is. -/
inductive TokenKind where
  | identifier
  | number
  | string
  | regularExpression
  | error
  | endOfFile
  | keyword (word : Keyword)
  | punctuation (mark : Punctuation)
  deriving DecidableEq, Repr

namespace Keyword

/-- All keywords, in their order. -/
def all : List Keyword := [
  .breakKw, .caseKw, .catchKw, .continueKw, .debuggerKw, .defaultKw, .deleteKw, .doKw, .elseKw, .falseKw,
  .finallyKw, .forKw, .functionKw, .ifKw, .inKw, .instanceOfKw, .newKw, .nullKw, .returnKw, .switchKw, .thisKw,
  .throwKw, .trueKw, .tryKw, .typeOfKw, .varKw, .voidKw, .whileKw, .withKw, .classKw, .constKw, .enumKw,
  .exportKw, .extendsKw, .importKw, .superKw, .implementsKw, .interfaceKw, .letKw, .packageKw, .privateKw,
  .protectedKw, .publicKw, .staticKw, .yieldKw]

def spelling : Keyword → String
  | .breakKw => "break"
  | .caseKw => "case"
  | .catchKw => "catch"
  | .continueKw => "continue"
  | .debuggerKw => "debugger"
  | .defaultKw => "default"
  | .deleteKw => "delete"
  | .doKw => "do"
  | .elseKw => "else"
  | .falseKw => "false"
  | .finallyKw => "finally"
  | .forKw => "for"
  | .functionKw => "function"
  | .ifKw => "if"
  | .inKw => "in"
  | .instanceOfKw => "instanceof"
  | .newKw => "new"
  | .nullKw => "null"
  | .returnKw => "return"
  | .switchKw => "switch"
  | .thisKw => "this"
  | .throwKw => "throw"
  | .trueKw => "true"
  | .tryKw => "try"
  | .typeOfKw => "typeof"
  | .varKw => "var"
  | .voidKw => "void"
  | .whileKw => "while"
  | .withKw => "with"
  | .classKw => "class"
  | .constKw => "const"
  | .enumKw => "enum"
  | .exportKw => "export"
  | .extendsKw => "extends"
  | .importKw => "import"
  | .superKw => "super"
  | .implementsKw => "implements"
  | .interfaceKw => "interface"
  | .letKw => "let"
  | .packageKw => "package"
  | .privateKw => "private"
  | .protectedKw => "protected"
  | .publicKw => "public"
  | .staticKw => "static"
  | .yieldKw => "yield"

def text (k : Keyword) : List Char := k.spelling.toList

def name : Keyword → String
  | .breakKw => "BreakKeyword"
  | .caseKw => "CaseKeyword"
  | .catchKw => "CatchKeyword"
  | .continueKw => "ContinueKeyword"
  | .debuggerKw => "DebuggerKeyword"
  | .defaultKw => "DefaultKeyword"
  | .deleteKw => "DeleteKeyword"
  | .doKw => "DoKeyword"
  | .elseKw => "ElseKeyword"
  | .falseKw => "FalseKeyword"
  | .finallyKw => "FinallyKeyword"
  | .forKw => "ForKeyword"
  | .functionKw => "FunctionKeyword"
  | .ifKw => "IfKeyword"
  | .inKw => "InKeyword"
  | .instanceOfKw => "InstanceOfKeyword"
  | .newKw => "NewKeyword"
  | .nullKw => "NullKeyword"
  | .returnKw => "ReturnKeyword"
  | .switchKw => "SwitchKeyword"
  | .thisKw => "ThisKeyword"
  | .throwKw => "ThrowKeyword"
  | .trueKw => "TrueKeyword"
  | .tryKw => "TryKeyword"
  | .typeOfKw => "TypeOfKeyword"
  | .varKw => "VarKeyword"
  | .voidKw => "VoidKeyword"
  | .whileKw => "WhileKeyword"
  | .withKw => "WithKeyword"
  | .classKw => "ClassKeyword"
  | .constKw => "ConstKeyword"
  | .enumKw => "EnumKeyword"
  | .exportKw => "ExportKeyword"
  | .extendsKw => "ExtendsKeyword"
  | .importKw => "ImportKeyword"
  | .superKw => "SuperKeyword"
  | .implementsKw => "ImplementsKeyword"
  | .interfaceKw => "InterfaceKeyword"
  | .letKw => "LetKeyword"
  | .packageKw => "PackageKeyword"
  | .privateKw => "PrivateKeyword"
  | .protectedKw => "ProtectedKeyword"
  | .publicKw => "PublicKeyword"
  | .staticKw => "StaticKeyword"
  | .yieldKw => "YieldKeyword"

/-- The keyword with a given spelling. -/
def ofText? (text : List Char) : Option Keyword := all.find? (fun k => k.text == text)

end Keyword

namespace Punctuation

def all : List Punctuation := [
  .openBrace, .closeBrace, .openParen, .closeParen, .openBracket, .closeBracket, .dot, .dotDotDot, .semicolon,
  .comma, .lessThan, .greaterThan, .lessThanEquals, .greaterThanEquals, .equalsEquals, .equalsGreaterThan,
  .exclamationEquals, .equalsEqualsEquals, .exclamationEqualsEquals, .plus, .minus, .asterisk, .percent,
  .plusPlus, .minusMinus, .lessThanLessThan, .greaterThanGreaterThan, .greaterThanGreaterThanGreaterThan,
  .ampersand, .bar, .caret, .exclamation, .tilde, .ampersandAmpersand, .barBar, .question, .colon, .equals,
  .plusEquals, .minusEquals, .asteriskEquals, .percentEquals, .lessThanLessThanEquals,
  .greaterThanGreaterThanEquals, .greaterThanGreaterThanGreaterThanEquals, .ampersandEquals, .barEquals,
  .caretEquals, .slash, .slashEquals]

def spelling : Punctuation → String
  | .openBrace => "\x7b"
  | .closeBrace => "\x7d"
  | .openParen => "("
  | .closeParen => ")"
  | .openBracket => "["
  | .closeBracket => "]"
  | .dot => "."
  | .dotDotDot => "..."
  | .semicolon => ";"
  | .comma => ","
  | .lessThan => "<"
  | .greaterThan => ">"
  | .lessThanEquals => "<="
  | .greaterThanEquals => ">="
  | .equalsEquals => "=="
  | .equalsGreaterThan => "=>"
  | .exclamationEquals => "!="
  | .equalsEqualsEquals => "==="
  | .exclamationEqualsEquals => "!=="
  | .plus => "+"
  | .minus => "-"
  | .asterisk => "*"
  | .percent => "%"
  | .plusPlus => "++"
  | .minusMinus => "--"
  | .lessThanLessThan => "<<"
  | .greaterThanGreaterThan => ">>"
  | .greaterThanGreaterThanGreaterThan => ">>>"
  | .ampersand => "&"
  | .bar => "|"
  | .caret => "^"
  | .exclamation => "!"
  | .tilde => "~"
  | .ampersandAmpersand => "&&"
  | .barBar => "||"
  | .question => "?"
  | .colon => ":"
  | .equals => "="
  | .plusEquals => "+="
  | .minusEquals => "-="
  | .asteriskEquals => "*="
  | .percentEquals => "%="
  | .lessThanLessThanEquals => "<<="
  | .greaterThanGreaterThanEquals => ">>="
  | .greaterThanGreaterThanGreaterThanEquals => ">>>="
  | .ampersandEquals => "&="
  | .barEquals => "|="
  | .caretEquals => "^="
  | .slash => "/"
  | .slashEquals => "/="

def text (p : Punctuation) : List Char := p.spelling.toList

def name : Punctuation → String
  | .openBrace => "OpenBraceToken"
  | .closeBrace => "CloseBraceToken"
  | .openParen => "OpenParenToken"
  | .closeParen => "CloseParenToken"
  | .openBracket => "OpenBracketToken"
  | .closeBracket => "CloseBracketToken"
  | .dot => "DotToken"
  | .dotDotDot => "DotDotDotToken"
  | .semicolon => "SemicolonToken"
  | .comma => "CommaToken"
  | .lessThan => "LessThanToken"
  | .greaterThan => "GreaterThanToken"
  | .lessThanEquals => "LessThanEqualsToken"
  | .greaterThanEquals => "GreaterThanEqualsToken"
  | .equalsEquals => "EqualsEqualsToken"
  | .equalsGreaterThan => "EqualsGreaterThanToken"
  | .exclamationEquals => "ExclamationEqualsToken"
  | .equalsEqualsEquals => "EqualsEqualsEqualsToken"
  | .exclamationEqualsEquals => "ExclamationEqualsEqualsToken"
  | .plus => "PlusToken"
  | .minus => "MinusToken"
  | .asterisk => "AsteriskToken"
  | .percent => "PercentToken"
  | .plusPlus => "PlusPlusToken"
  | .minusMinus => "MinusMinusToken"
  | .lessThanLessThan => "LessThanLessThanToken"
  | .greaterThanGreaterThan => "GreaterThanGreaterThanToken"
  | .greaterThanGreaterThanGreaterThan => "GreaterThanGreaterThanGreaterThanToken"
  | .ampersand => "AmpersandToken"
  | .bar => "BarToken"
  | .caret => "CaretToken"
  | .exclamation => "ExclamationToken"
  | .tilde => "TildeToken"
  | .ampersandAmpersand => "AmpersandAmpersandToken"
  | .barBar => "BarBarToken"
  | .question => "QuestionToken"
  | .colon => "ColonToken"
  | .equals => "EqualsToken"
  | .plusEquals => "PlusEqualsToken"
  | .minusEquals => "MinusEqualsToken"
  | .asteriskEquals => "AsteriskEqualsToken"
  | .percentEquals => "PercentEqualsToken"
  | .lessThanLessThanEquals => "LessThanLessThanEqualsToken"
  | .greaterThanGreaterThanEquals => "GreaterThanGreaterThanEqualsToken"
  | .greaterThanGreaterThanGreaterThanEquals => "GreaterThanGreaterThanGreaterThanEqualsToken"
  | .ampersandEquals => "AmpersandEqualsToken"
  | .barEquals => "BarEqualsToken"
  | .caretEquals => "CaretEqualsToken"
  | .slash => "SlashToken"
  | .slashEquals => "SlashEqualsToken"

/-- The mark assigns its right operand to its left one. -/
def isAssignment : Punctuation → Bool
  | .equals | .plusEquals | .minusEquals | .asteriskEquals | .percentEquals | .lessThanLessThanEquals
  | .greaterThanGreaterThanEquals | .greaterThanGreaterThanGreaterThanEquals | .ampersandEquals | .barEquals
  | .caretEquals | .slashEquals => true
  | _ => false

end Punctuation

namespace TokenKind

/-- All kinds, in their order: first those without a fixed spelling, then keywords, then punctuation. -/
def all : List TokenKind :=
  [.identifier, .number, .string, .regularExpression, .error, .endOfFile]
    ++ Keyword.all.map .keyword ++ Punctuation.all.map .punctuation

/-- The name under which a kind is shown. -/
def name : TokenKind → String
  | .identifier => "IdentifierName"
  | .number => "NumericLiteral"
  | .string => "StringLiteral"
  | .regularExpression => "RegularExpressionLiteral"
  | .error => "ErrorToken"
  | .endOfFile => "EndOfFileToken"
  | .keyword k => k.name
  | .punctuation p => p.name

def ofName? (name : String) : Option TokenKind := all.find? (fun k => k.name == name)

/-- The fixed spelling of a kind, if it has one. -/
def text? : TokenKind → Option (List Char)
  | .keyword k => some k.text
  | .punctuation p => some p.text
  | _ => none

/-- A reserved word. -/
def isKeyword : TokenKind → Bool
  | .keyword _ => true
  | _ => false

/-- A punctuation mark or operator. -/
def isPunctuation : TokenKind → Bool
  | .punctuation _ => true
  | _ => false

/-- A token that is an expression by itself because it denotes a value. -/
def isLiteral : TokenKind → Bool
  | .number | .string | .regularExpression => true
  | .keyword .trueKw | .keyword .falseKw | .keyword .nullKw => true
  | _ => false

def isAssignment : TokenKind → Bool
  | .punctuation p => p.isAssignment
  | _ => false

/-- A name or a reserved word, which may stand for a name. -/
def isWord : TokenKind → Bool
  | .identifier => true
  | .keyword _ => true
  | _ => false

/-- The number of kinds before this one. -/
def rank (k : TokenKind) : Nat := all.idxOf k

/-- A kind as a message names it: its spelling in quotes, or its name. -/
def shown (k : TokenKind) : List Char :=
  match k.text? with
  | some t => '\'' :: t ++ ['\'']
  | none => k.name.toList

end TokenKind

end Downlevel
