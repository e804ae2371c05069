import Scriptlet.Error
import Scriptlet.Token

/-!
# Complaints

What a rule says about the token at which it stops: nearly always what it expected there. With the
token, or the end of the tokens, it becomes an error.
-/

namespace Scriptlet

/-- What a rule says about the token at which it stops. -/
inductive Complaint where
  | expression
  /-- The parenthesis that closes a group. -/
  | groupEnd
  /-- The parenthesis that opens the arguments of a call. -/
  | argumentsStart
  | argumentsEnd
  | lineEndAfterExpression
  /-- One of the two words that open a declaration of a name. -/
  | declareWord
  | variableName
  | lineEndAfterDeclaration
  | funWord
  | functionName
  | parametersStart
  | parameterName
  | parametersEnd
  | functionBodyStart
  | ifWord
  | conditionStart
  | conditionEnd
  | blockStart
  | blockEnd
  /-- Nothing is wrong with the token, but too many rules are open. -/
  | nestingTooDeep
  /-- A complaint worded by whoever drives the rules by hand. -/
  | worded (message : String)
deriving DecidableEq, Repr

namespace Complaint

/-- The wording of a complaint. -/
def message : Complaint → String
  | .expression => "Expect expression."
  | .groupEnd => "Expect ')' after expression."
  | .argumentsStart => "Expect '(' before arguments."
  | .argumentsEnd => "Expect ')' after arguments."
  | .lineEndAfterExpression => "Expect newline after expression."
  | .declareWord => "Expect 'let' or 'var'."
  | .variableName => "Expect variable name."
  | .lineEndAfterDeclaration => "Expect newline after variable declaration."
  | .funWord => "Expect 'fun'."
  | .functionName => "Expect function name."
  | .parametersStart => "Expect '(' after function name."
  | .parameterName => "Expect parameter name."
  | .parametersEnd => "Expect ')' after parameters."
  | .functionBodyStart => "Expect '\x7b' before function body."
  | .ifWord => "Expect 'if'."
  | .conditionStart => "Expect '(' after 'if'."
  | .conditionEnd => "Expect ')' after if condition."
  | .blockStart => "Expect '\x7b'."
  | .blockEnd => "Expect '\x7d' after block."
  | .nestingTooDeep => "Nesting too deep."
  | .worded message => message

/-- The error that complains about the first of the given tokens. Without one it is reported at
`endPosition`. -/
def toError (c : Complaint) (endPosition : Position) : List Token → Error
  | [] => ⟨.unexpectedEnd c.message, endPosition⟩
  | t :: _ => ⟨.unexpectedToken t.lexeme c.message, t.position⟩

end Complaint

end Scriptlet
