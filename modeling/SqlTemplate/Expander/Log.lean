import SqlTemplate.Expander

set_option autoImplicit false

/-!
# What an expansion reports while it runs

Those who watch an expansion are told what its stages do. The messages are a function of the
template and the arguments (`Expander.applyLog`, `Expander.expandLog`), apart from the result, so
that the result does not depend on whether anyone listens.
-/

namespace SqlTemplate

/-- A message for those who watch an expansion. -/
inductive LogMessage where
  -- a closing delimiter, the word of this number, is skipped
  | skippedClose (position : Nat)
  -- the scopes were read, and the template has so many pieces
  | scopesRead (count : Nat)
  | stageFailed (reason : StageError)
  | expansionFailed (reason : ExpansionError)

/-- The wording of a message. -/
def LogMessage.text : LogMessage → Text
  | .skippedClose n =>
      "Ignoring unmatched '".toList ++ Keyword.scopeClose.text ++ "' at token ".toList
        ++ Decimal.ofNat n
  | .scopesRead n =>
      "Tokenized template into ".toList ++ Decimal.ofNat n ++ " top-level tokens".toList
  | .stageFailed (.exhausted stage) =>
      "Stage '".toList ++ stage.name
        ++ "' ran out of stack: ".toList ++ Stack.exhaustedMessage
  | .stageFailed e =>
      "Stage '".toList ++ e.stage.name ++ "' failed: ".toList ++ e.reasonMessage
  | .expansionFailed e => "Error in parse: ".toList ++ e.message

/-- What a reading of a template reports. -/
def Reading.log (reading : Reading) : List LogMessage :=
  reading.skipped.map .skippedClose ++ [.scopesRead reading.pieces.length]

/-- The report of a failed stage, none when it succeeded. -/
def LogMessage.ofStage {α : Type} : Except StageError α → List LogMessage
  | .error e => [.stageFailed e]
  | .ok _ => []

/-- The report of an expansion that may have failed in a stage. A value that has no text is reported
nowhere. -/
def LogMessage.ofExpansion {α : Type} : Except ExpansionError α → List LogMessage
  | .error (.stage e) => [.stageFailed e]
  | _ => []

namespace Expander

/-- What reading a template up to its tree reports. -/
def buildLog (p : Expander) (template : Text) : List LogMessage :=
  (match Reading.ofTemplate p.strict template with
    | .ok reading => reading.log
    | .error _ => []) ++ LogMessage.ofStage (p.build template)

/-- What an expansion reports up to its end. -/
def applyLog (p : Expander) (template : Text) : Value → List LogMessage
  | .none => []
  | args =>
      match Lookup.ofArgs p.marker args with
      | .error _ => []
      | .ok table =>
          p.buildLog template ++
            match p.build template with
            | .error _ => []
            | .ok tree => LogMessage.ofExpansion (p.substituted table tree)

/-- What an expansion reports when its outcome is reported too. -/
def expandLog (p : Expander) (template : Text) (args : Value) : List LogMessage :=
  p.applyLog template args ++
    match p.apply template args with
    | .ok _ | .error (.noText _) => []
    | .error e => [.expansionFailed e]

end Expander

end SqlTemplate
