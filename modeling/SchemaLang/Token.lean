import SchemaLang.Decimal.Style
import SchemaLang.Keyword
import SchemaLang.Position
import SchemaLang.Text.Quoted

/-!
# Tokens

Words, literals, comments, the arrow, and single characters. Punctuation is not enumerated: every
character that starts no other token is a token by itself.
-/

namespace SchemaLang

/-- What a token is. -/
inductive TokenKind where
  | keyword (word : Keyword)
  | ident (name : String)
  /-- A name with a colon directly after it. -/
  | label (name : String)
  | int (value : Int64)
  | float (value : Binary64)
  | bool (value : Bool)
  | string (value : String)
  | comment (text : String)
  /-- The arrow `->`. -/
  | arrow
  | char (c : Char)
  /-- The end of the input. -/
  | eof
  deriving DecidableEq, Repr

namespace TokenKind

/-- How a token is named in messages. -/
def describe : TokenKind → String
  | keyword word => "keyword `" ++ word.spelling ++ "`"
  | ident name => "identifier `" ++ name ++ "`"
  | label name => "label `" ++ name ++ ":`"
  | int value => "integer `" ++ toString value.toInt ++ "`"
  | float value => "float `" ++ DecimalStyle.message.render value ++ "`"
  | bool value => "bool `" ++ (if value then "true" else "false") ++ "`"
  | string value => "string " ++ Text.quoted value
  | comment _ => "comment"
  | arrow => "`->`"
  | char c => "`" ++ String.singleton c ++ "`"
  | eof => "end of input"

/-- A word is reserved, a boolean literal or a name. -/
def ofWord (word : String) : TokenKind :=
  match Keyword.ofSpelling? word with
  | some reserved => keyword reserved
  | none =>
    if word == "true" then bool true
    else if word == "false" then bool false
    else ident word

end TokenKind

/-- A token and where it starts. -/
structure Token where
  kind : TokenKind
  position : Position
  deriving DecidableEq, Repr

end SchemaLang
