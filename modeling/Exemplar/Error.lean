import Exemplar.Enumeration.Stats
import Exemplar.Evolution.Fitness
import Exemplar.Json.Fault
import Exemplar.Settings
import Exemplar.Typing
import Exemplar.Verification.Certificate

/-!
# Errors of a synthesis

Every cause for which an operation of the library is refused. Causes fall into kinds; errors in the
settings or in the problem are the caller's and count as fatal.
-/

namespace Exemplar

inductive ErrorKind where
  | synthesisExhausted
  | typeMismatch
  | verificationFailed
  | nonTerminationSuspected
  | invalidConfiguration
  | invalidProblem
  | unknownPrimitive
  | duplicateName
  deriving Inhabited, Repr, DecidableEq

/-- How the text of an error of a kind begins. -/
def ErrorKind.lead : ErrorKind → String
  | .synthesisExhausted => "synthesis exhausted: "
  | .typeMismatch => "type mismatch: "
  | .verificationFailed => "verification failed: "
  | .nonTerminationSuspected => "non-termination suspected: "
  | .invalidConfiguration => "invalid configuration: "
  | .invalidProblem => "invalid problem: "
  | .unknownPrimitive => "unknown primitive: "
  | .duplicateName => "duplicate primitive name: "

/-- Whether errors of a kind are the caller's. -/
def ErrorKind.fatal : ErrorKind → Bool
  | .invalidConfiguration => true
  | .invalidProblem => true
  | _ => false

/-- Why an operation is refused. -/
inductive Error where
  /-- An enumeration ended without a solution. -/
  | enumerationExhausted (by_ : Exhaustion) (candidates : Nat)
  /-- An evolution ended without a perfect individual. -/
  | evolutionExhausted (best : Fitness) (generations : Nat)
  | illTyped (cause : TypeError)
  /-- The body of a capability returns another type than declared. -/
  | bodyType (name : String) (actual declared : Ty)
  | shortfall (cause : Shortfall)
  | settings (cause : SettingsError)
  | unreadableSettings (fault : Json.Fault)
  | emptyTable
  /-- An enumeration has no size to work with. -/
  | zeroMaxSize
  /-- No tree of the wanted type can be grown. -/
  | noProducer (ty : Ty)
  | unknownStrategy (name : String)
  | problem (cause : ProblemError)
  /-- A program comes from a table of another origin. -/
  | foreignProgram
  | duplicateName (name : String)
  /-- An error that a strategy from outside reports in its own words. -/
  | reported (kind : ErrorKind) (text : String)
  deriving Inhabited

namespace Error

def kind : Error → ErrorKind
  | .enumerationExhausted .. => .synthesisExhausted
  | .evolutionExhausted .. => .synthesisExhausted
  | .illTyped (.unknownPrimitive _) => .unknownPrimitive
  | .illTyped _ => .typeMismatch
  | .bodyType .. => .typeMismatch
  | .shortfall (.suspectedNonTermination _) => .nonTerminationSuspected
  | .shortfall _ => .verificationFailed
  | .settings _ => .invalidConfiguration
  | .unreadableSettings _ => .invalidConfiguration
  | .emptyTable => .invalidConfiguration
  | .zeroMaxSize => .invalidConfiguration
  | .noProducer _ => .invalidConfiguration
  | .unknownStrategy _ => .invalidConfiguration
  | .problem _ => .invalidProblem
  | .foreignProgram => .invalidProblem
  | .duplicateName _ => .duplicateName
  | .reported kind _ => kind

/-- What an error says about its cause. -/
def detail : Error → String
  | .enumerationExhausted reason candidates =>
    "enumeration stopped by " ++ reason.text ++ " after " ++ toString candidates ++ " candidates"
  | .evolutionExhausted best generations =>
    "best fitness " ++ best.text ++ " after " ++ toString generations ++ " generations"
  | .illTyped cause => cause.message
  | .bodyType name actual declared =>
    name ++ " body returns " ++ actual.text ++ ", declared " ++ declared.text
  | .shortfall cause => cause.message
  | .settings cause => cause.message
  | .unreadableSettings fault => fault.text
  | .emptyTable => "primitive table is empty"
  | .zeroMaxSize => "max_size must be positive"
  | .noProducer ty => "no primitive or terminal produces " ++ ty.text
  | .unknownStrategy name => "unknown strategy " ++ name
  | .problem cause => cause.message
  | .foreignProgram => "program was synthesized against a different registry"
  | .duplicateName name => name
  | .reported _ text => text

def message (e : Error) : String := e.kind.lead ++ e.detail

def fatal (e : Error) : Bool := e.kind.fatal

/-- A result whose error becomes the cause of an error. -/
def lift {ε α : Type} (cause : ε → Error) : Except ε α → Except Error α
  | .ok a => .ok a
  | .error e => .error (cause e)

end Error

end Exemplar
