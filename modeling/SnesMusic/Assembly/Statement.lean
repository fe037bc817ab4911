import SnesMusic.Text.Blank
import SnesMusic.Text.Cut
import SnesMusic.Text.Unsigned

/-!
# Statements of the assembly dialect

A line holds one statement: a label, a setting, data, an invocation of a named command, or nothing
but a comment. `Statement.render` writes a statement as a line and `Statement.ofLine` reads a line;
a comment is not kept.
-/
namespace SnesMusic.Assembly

open Text

inductive Statement where
  | blank
  | comment (text : String)
  | label (name : String)
  | localLabel (name : String)
  /-- The label of a channel's data. -/
  | channel (index : Nat)
  | setting (name value : String)
  | bytes (values : List String)
  | words (values : List String)
  | invocation (name : String) (arguments : List String)
  /-- An invocation whose parentheses do not close. -/
  | broken (text : String)
  | unrecognized (text : String)
  deriving DecidableEq, Repr

namespace Statement

def indent : String := "    "

def channelLabel : String := "Channel"

/-- The line of a statement, without its end. -/
def render : Statement → String
  | .blank => ""
  | .comment text => "; " ++ text
  | .label name => name ++ ":"
  | .localLabel name => "." ++ name ++ ":"
  | .channel index => "." ++ channelLabel ++ toString index ++ ":"
  | .setting name value => "!" ++ name ++ " = " ++ value
  | .bytes values => indent ++ "db " ++ ", ".intercalate values
  | .words values => indent ++ "dw " ++ ", ".intercalate values
  | .invocation name arguments => indent ++ "%" ++ name ++ "(" ++ ", ".intercalate arguments ++ ")"
  | .broken text => text
  | .unrecognized text => text

/-- The parts of a list separated by commas, trimmed; empty parts are dropped. -/
def parts (text : List Char) : List String :=
  (((pieces ',' text).map trim).filter (!·.isEmpty)).map String.ofList

/-- The channel that a local label names: the word for channels and a number below eight. -/
def channel? (name : List Char) : Option Nat :=
  if channelLabel.toList.isPrefixOf name then
    numeral? 10 8 (name.drop channelLabel.length)
  else none

/-- The statement of a label, its colon removed. -/
def ofLabel (label : List Char) : Statement :=
  match label with
  | '.' :: name =>
    match channel? name with
    | some index => .channel index
    | none => .localLabel (String.ofList name)
  | _ => .label (String.ofList label)

/-- Reads an invocation behind its mark. Without parentheses there are no arguments; what follows
the closing parenthesis is ignored. -/
def ofInvocation (call : List Char) : Statement :=
  match cutAt '(' call with
  | none => .invocation (String.ofList (trim call)) []
  | some (name, rest) =>
    match cutAt ')' rest with
    | none => .broken (String.ofList ('%' :: call))
    | some (arguments, _) => .invocation (String.ofList (trim name)) (parts arguments)

/-- Reads the statement of a line without comment and outer blanks. -/
def ofCode (code : List Char) : Statement :=
  match code with
  | [] => .blank
  | first :: rest =>
    if code.getLast? = some ':' then ofLabel (trim code.dropLast)
    else if first = '.' then ofLabel code
    else
      let setting := if first = '!' then cutAt '=' rest else none
      match setting with
      | some (name, value) => .setting (String.ofList (trim name)) (String.ofList (trim value))
      | none =>
        match first, rest with
        | 'd', 'b' :: operands =>
          if operands.isEmpty || operands.head?.any isBlank then .bytes (parts operands)
          else .unrecognized (String.ofList code)
        | 'd', 'w' :: operands =>
          if operands.isEmpty || operands.head?.any isBlank then .words (parts operands)
          else .unrecognized (String.ofList code)
        | '%', call => ofInvocation call
        | _, _ => .unrecognized (String.ofList code)

/-- Reads the statement of a line. A semicolon begins a comment. -/
def ofLine (line : List Char) : Statement :=
  match cutAt ';' line with
  | none => ofCode (trim line)
  | some (code, _) => ofCode (trim code)

end Statement
end SnesMusic.Assembly
