/-! # Punctuation and delimiters -/

namespace Ferrotype

/--
Punctuation marks. `<<` and `>>` are not among them: each `>` closes one list of generic
arguments, and a shift is two marks without a gap.
-/
inductive Punct where
  | dotDotDot | dotDotEq | colonColon | arrow | fatArrow | dotDot | andAnd | pipePipe | eqEq
  | bangEq | ltEq | gtEq | plusEq | minusEq | starEq | slashEq | percentEq | caretEq | andEq
  | pipeEq | plus | minus | star | slash | percent | caret | bang | and | pipe | eq | lt | gt
  | atSign | dot | comma | semicolon | colon | pound | dollar | question | tilde
  deriving Repr, DecidableEq

namespace Punct

/-- Every mark, the longer ones first. -/
def all : List Punct :=
  [.dotDotDot, .dotDotEq, .colonColon, .arrow, .fatArrow, .dotDot, .andAnd, .pipePipe, .eqEq,
   .bangEq, .ltEq, .gtEq, .plusEq, .minusEq, .starEq, .slashEq, .percentEq, .caretEq, .andEq,
   .pipeEq, .plus, .minus, .star, .slash, .percent, .caret, .bang, .and, .pipe, .eq, .lt, .gt,
   .atSign, .dot, .comma, .semicolon, .colon, .pound, .dollar, .question, .tilde]

def text : Punct → String
  | .dotDotDot => "..."
  | .dotDotEq => "..="
  | .colonColon => "::"
  | .arrow => "->"
  | .fatArrow => "=>"
  | .dotDot => ".."
  | .andAnd => "&&"
  | .pipePipe => "||"
  | .eqEq => "=="
  | .bangEq => "!="
  | .ltEq => "<="
  | .gtEq => ">="
  | .plusEq => "+="
  | .minusEq => "-="
  | .starEq => "*="
  | .slashEq => "/="
  | .percentEq => "%="
  | .caretEq => "^="
  | .andEq => "&="
  | .pipeEq => "|="
  | .plus => "+"
  | .minus => "-"
  | .star => "*"
  | .slash => "/"
  | .percent => "%"
  | .caret => "^"
  | .bang => "!"
  | .and => "&"
  | .pipe => "|"
  | .eq => "="
  | .lt => "<"
  | .gt => ">"
  | .atSign => "@"
  | .dot => "."
  | .comma => ","
  | .semicolon => ";"
  | .colon => ":"
  | .pound => "#"
  | .dollar => "$"
  | .question => "?"
  | .tilde => "~"

def name : Punct → String
  | .dotDotDot => "DOT_DOT_DOT"
  | .dotDotEq => "DOT_DOT_EQ"
  | .colonColon => "COLON_COLON"
  | .arrow => "ARROW"
  | .fatArrow => "FAT_ARROW"
  | .dotDot => "DOT_DOT"
  | .andAnd => "AMPERSAND_AMPERSAND"
  | .pipePipe => "PIPE_PIPE"
  | .eqEq => "EQ_EQ"
  | .bangEq => "BANG_EQ"
  | .ltEq => "LT_EQ"
  | .gtEq => "GT_EQ"
  | .plusEq => "PLUS_EQ"
  | .minusEq => "MINUS_EQ"
  | .starEq => "STAR_EQ"
  | .slashEq => "SLASH_EQ"
  | .percentEq => "PERCENT_EQ"
  | .caretEq => "CARET_EQ"
  | .andEq => "AMPERSAND_EQ"
  | .pipeEq => "PIPE_EQ"
  | .plus => "PLUS"
  | .minus => "MINUS"
  | .star => "STAR"
  | .slash => "SLASH"
  | .percent => "PERCENT"
  | .caret => "CARET"
  | .bang => "BANG"
  | .and => "AMPERSAND"
  | .pipe => "PIPE"
  | .eq => "EQ"
  | .lt => "LT"
  | .gt => "GT"
  | .atSign => "AT"
  | .dot => "DOT"
  | .comma => "COMMA"
  | .semicolon => "SEMICOLON"
  | .colon => "COLON"
  | .pound => "POUND"
  | .dollar => "DOLLAR"
  | .question => "QUESTION"
  | .tilde => "TILDE"

/-- The longest mark that a text starts with. -/
def ofStart? (s : List Char) : Option Punct := all.find? fun p => p.text.toList.isPrefixOf s

end Punct

/-! ## Delimiters -/

inductive Delim where
  | paren | bracket | brace
  deriving Repr, DecidableEq

namespace Delim

def all : List Delim := [.paren, .bracket, .brace]

def openChar : Delim → Char
  | .paren => '('
  | .bracket => '['
  | .brace => '{'

def closeChar : Delim → Char
  | .paren => ')'
  | .bracket => ']'
  | .brace => '}'

def openName : Delim → String
  | .paren => "LPAREN"
  | .bracket => "LBRACKET"
  | .brace => "LBRACE"

def closeName : Delim → String
  | .paren => "RPAREN"
  | .bracket => "RBRACKET"
  | .brace => "RBRACE"

end Delim

end Ferrotype
