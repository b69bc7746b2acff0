import WordMachine.Json.Skip
import WordMachine.RunConfig

/-!
A run configuration read from JSON: an object of named fields, or an array of their values in order.
Missing fields keep their defaults and unknown ones are passed over; a field given twice, a value of
another type and anything behind the value are refused.
-/

namespace WordMachine.RunConfig

open Json (Token)

inductive Field where
  | suspendOnInput
  | strictOutput
  | stepLimit
deriving DecidableEq

namespace Field

def ofName? : String → Option Field
  | "suspend_on_input" => some suspendOnInput
  | "strict_output" => some strictOutput
  | "step_limit" => some stepLimit
  | _ => none

def inOrder : List Field := [suspendOnInput, strictOutput, stepLimit]

end Field

def maxStepLimit : Nat := UInt64.size - 1

/-- Sets a field to the value of a token of its type. -/
def set? (config : RunConfig) : Field → Token → Option RunConfig
  | .suspendOnInput, .bool value => some { config with suspendOnInput := value }
  | .strictOutput, .bool value => some { config with strictOutput := value }
  | .stepLimit, .null => some { config with stepLimit := none }
  | .stepLimit, .number (some limit) =>
    if limit ≤ maxStepLimit then some { config with stepLimit := some limit } else none
  | _, _ => none

/-- The tokens from the next value of an array on: those behind a comma, or all of them before the
first value. -/
def nextValue? (first : Bool) (tokens : List Token) : Option (List Token) :=
  if first then some tokens
  else match tokens with
    | .comma :: rest => some rest
    | _ => none

/-- Reads the values of an array up to its end; `first` says that none has been read. -/
def positional? (config : RunConfig) (first : Bool) : List Field → List Token → Option RunConfig
  | _, [.closeBracket] => some config
  | [], _ => none
  | field :: fields, tokens =>
    match nextValue? first tokens with
    | some (token :: rest) => do positional? (← config.set? field token) false fields rest
    | _ => none

/-- Reads fields of an object where a name comes next, at most so many. `seen` are the fields that
have been given. -/
def named? (config : RunConfig) (seen : List Field) : (budget : Nat) → List Token → Option RunConfig
  | budget + 1, .string (some name) :: .colon :: tokens =>
    match Field.ofName? name with
    | some field =>
      match tokens with
      | token :: rest =>
        if field ∈ seen then none
        else do continue? (← config.set? field token) (field :: seen) budget rest
      | [] => none
    | none => do continue? config seen budget (← Json.skip? tokens)
  | _, _ => none
where
  /-- Reads on after a value: to the end, or behind a comma. -/
  continue? (config : RunConfig) (seen : List Field) (budget : Nat) :
      List Token → Option RunConfig
    | [.closeBrace] => some config
    | .comma :: rest => named? config seen budget rest
    | _ => none

def ofTokens? : List Token → Option RunConfig
  | [.openBrace, .closeBrace] => some {}
  | .openBrace :: rest => named? {} [] rest.length rest
  | .openBracket :: rest => positional? {} true Field.inOrder rest
  | _ => none

def ofJson? (text : String) : Option RunConfig := Json.Token.all? text >>= ofTokens?

end WordMachine.RunConfig
