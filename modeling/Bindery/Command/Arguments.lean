import Bindery.Text.Cut
import Bindery.Text.Numeral

/-!
# Arguments of a command

The arguments of a command are options, which begin with a dash, and operands, which have a fixed
order. An option may be shortened as long as only one fits, and its value stands behind it or is
attached with an equals sign; of repeated options the last counts. A pair of dashes that is attached
stands for no value. Behind a lone pair of dashes everything is an operand. What looks like a
negative number, or holds a space and is no option, is an operand as well. Every command understands
the options that ask for help.
-/

namespace Bindery

open Text

/-- What an option takes. -/
inductive OptionKind where
  /-- Nothing. -/
  | flag
  /-- A value. -/
  | value
  /-- One of several values. -/
  | choice (allowed : List String)
  /-- Nothing; the option asks for help. -/
  | help
  deriving DecidableEq, Repr

/-- The arguments that a command understands. -/
structure Grammar where
  /-- The options under their full names, which begin with two dashes. -/
  options : List (String × OptionKind)
  /-- The names of the operands, all of which must be given. -/
  operands : List String := []
  /-- The options that must be given. -/
  required : List String := []
  /-- What the command is for. -/
  purpose : String := ""
  /-- What the operands and options are for, under their names. -/
  explanations : List (String × String) := []

/-- Why arguments are not taken. -/
inductive Refusal where
  /-- They do not fit the grammar. -/
  | usage
  /-- They ask for help. -/
  | help
  deriving DecidableEq, Repr

/-- Arguments that were taken. -/
structure Arguments where
  /-- Values under the names of their options and operands, the last first. An option may have been
  given no value. -/
  values : List (String × Option String) := []
  /-- The flags. -/
  flags : List String := []
  deriving DecidableEq, Repr

namespace Arguments

/-- Whether something was given under a name, be it no value. -/
def has (a : Arguments) (name : String) : Bool := (a.values.lookup name).isSome

/-- The value under a name. -/
def value? (a : Arguments) (name : String) : Option String := (a.values.lookup name).join

/-- The value under a name unless it is missing or empty. -/
def given? (a : Arguments) (name : String) : Option String :=
  (a.value? name).filter fun v => !v.isEmpty

/-- Whether a flag was set. -/
def hasFlag (a : Arguments) (name : String) : Bool := a.flags.contains name

end Arguments

/-- An argument by its form. -/
inductive ArgumentWord where
  /-- An operand, or the value of the option before it. -/
  | operand (text : String)
  /-- The pair of dashes that ends the options. -/
  | separator
  /-- An option by its full name, with what is attached to it. -/
  | option (name : String) (kind : OptionKind) (attached : Option String)
  /-- Something attached to an option that takes nothing. -/
  | misused
  /-- Something that begins like an option but is none. -/
  | unknown
  deriving DecidableEq, Repr

namespace Grammar

/-- All options: those of the grammar and the one that asks for help. -/
def allOptions (g : Grammar) : List (String × OptionKind) := ("--help", .help) :: g.options

/-- The short option that asks for help. -/
def helpMark : Char := 'h'

/-- The form of an argument of a dash and the short option for help, by what follows. The short
option may be repeated, also behind an equals sign, and nothing else may be attached to it. -/
def helpWord (rest : List Char) : ArgumentWord :=
  let repeated := if rest.head? = some '=' then rest.drop 1 else rest
  if rest ≠ ['='] ∧ repeated.all (· == helpMark) then .option "--help" .help none else .misused

/-- Whether the text behind a dash makes it a negative number. -/
def isNumberLike (cs : List Char) : Bool :=
  let cs := if cs.getLast? = some '\n' then cs.dropLast else cs
  let isDigits (part : List Char) : Bool := !part.isEmpty && part.all isDecimalDigit
  match splitFirst '.' cs with
  | (whole, none) => isDigits whole
  | (whole, some rest) => whole.all isDecimalDigit && isDigits rest

/-- The form of an argument that begins with a dash and is no option. -/
def plainWord (text : String) : ArgumentWord :=
  if isNumberLike text.toList.tail ∨ ' ' ∈ text.toList then .operand text else .unknown

/-- The form of an argument that begins with two dashes. What stands in front of an equals sign, or
all of it, is an option's full name or the beginning of one. -/
def longWord (g : Grammar) (text : String) : Except Refusal ArgumentWord :=
  let (name, attached) := splitFirst '=' text.toList
  let attached := attached.map String.ofList
  match g.allOptions.lookup (String.ofList name) with
  | some kind => .ok (.option (String.ofList name) kind attached)
  | none =>
    match g.allOptions.filter fun o => name.isPrefixOf o.1.toList with
    | [(full, kind)] => .ok (.option full kind attached)
    | [] => .ok (plainWord text)
    | _ => .error .usage

/-- The form of an argument in front of the end of the options. -/
def classify (g : Grammar) (text : String) : Except Refusal ArgumentWord :=
  match text.toList with
  | '-' :: '-' :: _ => g.longWord text
  | '-' :: c :: rest => .ok (if c = helpMark then helpWord rest else plainWord text)
  | _ => .ok (.operand text)

/-- The forms of all arguments. -/
def classifyAll (g : Grammar) : List String → Except Refusal (List ArgumentWord)
  | [] => .ok []
  | text :: rest =>
    if text = "--" then .ok (.separator :: rest.map .operand)
    else do
      let word ← g.classify text
      return word :: (← g.classifyAll rest)

/-- How far arguments have been read. -/
structure Reading where
  /-- What was taken so far. -/
  taken : Arguments := {}
  /-- The operands that are still missing. -/
  missing : List String
  /-- Whether something had no place. -/
  hasStray : Bool := false

namespace Reading

/-- Takes a value, or notes that none was given. -/
def takeValue (r : Reading) (name : String) (value : Option String) : Reading :=
  { r with taken := { r.taken with values := (name, value) :: r.taken.values } }

/-- Takes a flag. -/
def takeFlag (r : Reading) (name : String) : Reading :=
  { r with taken := { r.taken with flags := name :: r.taken.flags } }

/-- Takes the value of an option. Nothing is no wrong choice. -/
def takeOption (r : Reading) (name : String) (kind : OptionKind) (value : String) :
    Except Refusal Reading :=
  if value = "--" then .ok (r.takeValue name none)
  else
    match kind with
    | .choice allowed => if value ∈ allowed then .ok (r.takeValue name value) else .error .usage
    | _ => .ok (r.takeValue name value)

/-- Notes an argument that has no place. -/
def stray (r : Reading) : Reading := { r with hasStray := true }

/-- Reads arguments. The pair of dashes that ends the options belongs to an operand next to it:
`besideOperand` says whether one stands before it. A further pair of dashes fills the place of an
operand with nothing. -/
def readFrom (besideOperand : Bool) (r : Reading) : List ArgumentWord → Except Refusal Reading
  | [] => .ok r
  | .operand text :: rest =>
    match r.missing with
    | [] => r.stray.readFrom false rest
    | name :: missing =>
      if text = "--" then { r with missing }.readFrom true rest
      else ({ r with missing }.takeValue name text).readFrom true rest
  | .separator :: rest =>
    if besideOperand then r.readFrom true rest
    else
      match r.missing, rest with
      | name :: missing, .operand text :: rest =>
        ({ r with missing }.takeValue name text).readFrom true rest
      | _, rest => r.stray.readFrom false rest
  | .unknown :: rest => r.stray.readFrom false rest
  | .misused :: _ => .error .usage
  | .option name kind attached :: rest =>
    match kind, attached with
    | .help, none => .error .help
    | .help, some _ => .error .usage
    | .flag, none => (r.takeFlag name).readFrom false rest
    | .flag, some _ => .error .usage
    | kind, some value =>
      match r.takeOption name kind value with
      | .ok r => r.readFrom false rest
      | .error refusal => .error refusal
    | kind, none =>
      match rest with
      | .operand value :: rest =>
        match r.takeOption name kind value with
        | .ok r => r.readFrom false rest
        | .error refusal => .error refusal
      | _ => .error .usage

end Reading

/-- Reads arguments. -/
def parse (g : Grammar) (arguments : List String) : Except Refusal Arguments := do
  let words ← g.classifyAll arguments
  let r ← Reading.readFrom false { missing := g.operands } words
  let hasRequired := g.required.all r.taken.has
  if r.missing.isEmpty && !r.hasStray && hasRequired then return r.taken
  else throw .usage

end Grammar

end Bindery
