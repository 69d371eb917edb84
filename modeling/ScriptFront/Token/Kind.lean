/-!
# Token kinds

What a token can be: one of the marks of punctuation, one of the reserved words, a name, a number, a
string, or the end of the input. A mark and a reserved word have one spelling each; the other kinds
are told apart by the text they carry.
-/

namespace ScriptFront

/-- Punctuation and operators. -/
inductive Mark where
  | openBracket | closeBracket | openCurly | closeCurly | openParen | closeParen
  | assign | equals | not | notEquals
  | less | lessEquals | greater | greaterEquals
  | or | and
  | dot | dotDot | semicolon | colon | question | comma
  | plusPlus | minusMinus | plusEquals | minusEquals
  | plus | dash | slash | star | percent
deriving DecidableEq, Repr

/-- Words that cannot be used as names. -/
inductive Word where
  | var | const | obj | grp | func | import_ | return_ | if_ | else_ | for_ | while_
  | typeof | in_ | true_ | false_ | from_
deriving DecidableEq, Repr

/-- The class of a token (`TokenKind`). -/
inductive Kind where
  | endOfInput
  | number
  | string
  | identifier
  | mark (m : Mark)
  | word (w : Word)
deriving DecidableEq, Repr

namespace Mark

/-- All marks. -/
def all : List Mark :=
  [openBracket, closeBracket, openCurly, closeCurly, openParen, closeParen, assign, equals, not,
   notEquals, less, lessEquals, greater, greaterEquals, or, and, dot, dotDot, semicolon, colon,
   question, comma, plusPlus, minusMinus, plusEquals, minusEquals, plus, dash, slash, star, percent]

/-- The characters that write a mark. -/
def spelling : Mark → List Char
  | openBracket => ['[']
  | closeBracket => [']']
  | openCurly => ['{']
  | closeCurly => ['}']
  | openParen => ['(']
  | closeParen => [')']
  | assign => ['=']
  | equals => ['=', '=']
  | not => ['!']
  | notEquals => ['!', '=']
  | less => ['<']
  | lessEquals => ['<', '=']
  | greater => ['>']
  | greaterEquals => ['>', '=']
  | or => ['|', '|']
  | and => ['&', '&']
  | dot => ['.']
  | dotDot => ['.', '.']
  | semicolon => [';']
  | colon => [':']
  | question => ['?']
  | comma => [',']
  | plusPlus => ['+', '+']
  | minusMinus => ['-', '-']
  | plusEquals => ['+', '=']
  | minusEquals => ['-', '=']
  | plus => ['+']
  | dash => ['-']
  | slash => ['/']
  | star => ['*']
  | percent => ['%']

/-- The name a mark goes by in messages. -/
def name : Mark → String
  | openBracket => "OpenBracket"
  | closeBracket => "CloseBracket"
  | openCurly => "OpenCurly"
  | closeCurly => "CloseCurly"
  | openParen => "OpenParen"
  | closeParen => "CloseParen"
  | assign => "Assignment"
  | equals => "Equals"
  | not => "Not"
  | notEquals => "NotEquals"
  | less => "Less"
  | lessEquals => "LessEquals"
  | greater => "Greater"
  | greaterEquals => "GreaterEquals"
  | or => "Or"
  | and => "And"
  | dot => "Dot"
  | dotDot => "DotDot"
  | semicolon => "Semicolon"
  | colon => "Colon"
  | question => "Question"
  | comma => "Comma"
  | plusPlus => "PlusPlus"
  | minusMinus => "MinusMinus"
  | plusEquals => "PlusEquals"
  | minusEquals => "MinusEquals"
  | plus => "Plus"
  | dash => "Dash"
  | slash => "Slash"
  | star => "Star"
  | percent => "Percent"

theorem spelling_ne_nil (m : Mark) : m.spelling ≠ [] := by
  cases m <;> simp [spelling]

theorem mem_all (m : Mark) : m ∈ all := by
  cases m <;> decide

end Mark

namespace Word

/-- All reserved words. -/
def all : List Word :=
  [var, const, obj, grp, func, import_, return_, if_, else_, for_, while_, typeof, in_, true_,
   false_, from_]

/-- How a reserved word is written. -/
def spelling : Word → String
  | var => "var"
  | const => "const"
  | obj => "obj"
  | grp => "grp"
  | func => "func"
  | import_ => "import"
  | return_ => "return"
  | if_ => "if"
  | else_ => "else"
  | for_ => "for"
  | while_ => "while"
  | typeof => "typeof"
  | in_ => "in"
  | true_ => "true"
  | false_ => "false"
  | from_ => "from"

/-- The name a reserved word goes by in messages. -/
def name : Word → String
  | var => "Var"
  | const => "Const"
  | obj => "Obj"
  | grp => "Grp"
  | func => "Func"
  | import_ => "Import"
  | return_ => "Return"
  | if_ => "If"
  | else_ => "Else"
  | for_ => "For"
  | while_ => "While"
  | typeof => "Typeof"
  | in_ => "In"
  | true_ => "True"
  | false_ => "False"
  | from_ => "From"

theorem mem_all (w : Word) : w ∈ all := by
  cases w <;> decide

/-- The reserved word written `text`, if there is one (`RESERVED_LOOKUP`). -/
def ofSpelling? (text : String) : Option Word :=
  all.find? fun w => w.spelling == text

end Word

namespace Kind

/-- All kinds. -/
def all : List Kind :=
  [endOfInput, number, string, identifier] ++ Mark.all.map mark ++ Word.all.map word

theorem mem_all (k : Kind) : k ∈ all := by
  cases k with
  | mark m => simp [all, Mark.mem_all]
  | word w => simp [all, Word.mem_all]
  | _ => simp [all]

/-- The name a kind goes by in messages (`fmt` of kinds). -/
def name : Kind → String
  | endOfInput => "EOF"
  | number => "Number"
  | string => "String"
  | identifier => "Identifier"
  | mark m => m.name
  | word w => w.name

/-- The kind with the given name, if there is one. -/
def ofName? (text : String) : Option Kind :=
  all.find? fun k => k.name == text

/-- The text of such a token says more than its kind (`is_literal`). -/
def isLiteral : Kind → Bool
  | number | string | identifier => true
  | _ => false

/-- The kind of a reserved word (`is_reserved`). -/
def isReserved : Kind → Bool
  | word _ => true
  | _ => false

/-- The kind of a word: its own if it is reserved, a name otherwise (`symbol_handler`). -/
def ofWord (text : String) : Kind :=
  match Word.ofSpelling? text with
  | some w => word w
  | none => identifier

end Kind

end ScriptFront
