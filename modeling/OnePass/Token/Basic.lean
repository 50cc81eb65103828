import OnePass.Position
import OnePass.Double.Text
import OnePass.Text.Quoted

/-!
# Tokens

The words, symbols and literals of a program, each with the position of its first character.
-/

namespace OnePass

/-- What a token is. -/
inductive Token.Kind where
  | keyword (word : String)
  | symbol (text : String)
  | ident (name : String)
  | int (value : Int32)
  | double (value : Double)
  | bool (value : Bool)
  | char (value : Char)
  | string (value : String)
  | eof
deriving DecidableEq

structure Token where
  kind : Token.Kind
  pos : Position
deriving DecidableEq

namespace Token

/-- The words that are no identifiers, the truth values apart. -/
def keywords : List String :=
  ["if", "else", "while", "break", "continue", "return", "int", "bool", "char", "string", "double"]

/-- The symbols of two characters. They win over those of one. -/
def longSymbols : List String :=
  ["++", "--", "<=", ">=", "==", "!=", "||", "&&", "+=", "-=", "*=", "/=", "%="]

def shortSymbols : List String :=
  ["+", "-", "*", "/", "%", "&", "|", "~", "!", "<", ">", "=", "(", ")", "\x7b", "\x7d", ";", ","]

/-- The token a word stands for. -/
def Kind.ofWord (word : String) : Kind :=
  if word = "true" then .bool true
  else if word = "false" then .bool false
  else if word ∈ keywords then .keyword word
  else .ident word

/-- How a token is shown in a message. -/
def Kind.text : Kind → String
  | .keyword word => word
  | .symbol text => text
  | .ident name => name
  | .int value => value.toInt.repr
  | .double value => value.text
  | .bool value => if value then "true" else "false"
  | .char value => Quoted.char value
  | .string value => Quoted.string value
  | .eof => "EOF"

def isSymbol (t : Token) (text : String) : Bool := t.kind = .symbol text

def isKeyword (t : Token) (word : String) : Bool := t.kind = .keyword word

def isEof (t : Token) : Bool := t.kind = .eof

end Token

end OnePass
