import WordMachine.Json.Token

/-!
Passing over one JSON value of any depth. The brackets that are open are kept on a stack.
-/

namespace WordMachine.Json

inductive Bracket where
  | brace
  | bracket
deriving DecidableEq

/-- What may come next inside a value. -/
inductive Expecting where
  | value
  | valueOrClose
  | key
  | keyOrClose
  | colon
  | commaOrClose
deriving DecidableEq

namespace Bracket

def closing : Bracket → Token
  | brace => .closeBrace
  | bracket => .closeBracket

/-- What comes after a comma between the brackets. -/
def afterComma : Bracket → Expecting
  | brace => .key
  | bracket => .value

end Bracket

/-- What follows the value that is begun, if it is completed and well formed. -/
def skipFrom : List Bracket → Expecting → List Token → Option (List Token)
  | _, _, [] => none
  | stack, expecting, token :: rest =>
    match expecting, token with
    | .value, .openBrace | .valueOrClose, .openBrace => skipFrom (.brace :: stack) .keyOrClose rest
    | .value, .openBracket | .valueOrClose, .openBracket =>
      skipFrom (.bracket :: stack) .valueOrClose rest
    | .value, .null | .value, .bool _ | .value, .number _ | .value, .string _
    | .valueOrClose, .null | .valueOrClose, .bool _ | .valueOrClose, .number _
    | .valueOrClose, .string _ =>
      if stack.isEmpty then some rest else skipFrom stack .commaOrClose rest
    | .key, .string _ | .keyOrClose, .string _ => skipFrom stack .colon rest
    | .colon, .colon => skipFrom stack .value rest
    | .valueOrClose, token | .keyOrClose, token | .commaOrClose, token =>
      match stack with
      | [] => none
      | innermost :: below =>
        if token = innermost.closing then
          if below.isEmpty then some rest else skipFrom below .commaOrClose rest
        else if expecting = .commaOrClose ∧ token = .comma then
          skipFrom stack innermost.afterComma rest
        else none
    | _, _ => none

/-- What follows one value. -/
def skip? (tokens : List Token) : Option (List Token) := skipFrom [] .value tokens

end WordMachine.Json
