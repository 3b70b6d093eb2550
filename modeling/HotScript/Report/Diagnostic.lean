import HotScript.Report.Warning
import HotScript.Source.Span
import HotScript.Text.Slice

/-!
Diagnostics: what the analysis of a file has to say about it, and where.
-/

namespace HotScript

open Text (quoted)

/-- Names, bases and members that do not resolve. -/
inductive ResolutionFault
  | unresolvedIdentifier (name : String)
  | unresolvedType (name : String)
  | missingBase (cls base : String)
  | cyclicInheritance (cls : String) (chain : List String)
  | cyclicReference (cls : String)
  | memberConflictBase (member base : String)
  | memberConflictNative (member native : String)
  | duplicateMember (member : String)
  | hidesGlobal (name kind : String)
  | invalidClass (cls : String)
  | dependencyFailed (path : String)
  | unknownMember (base member : String)
  | instanceFromStatic (member : String)
deriving DecidableEq, Repr

def ResolutionFault.message : ResolutionFault → String
  | unresolvedIdentifier name =>
    "identifier " ++ quoted name ++ " not declared in the current scope"
  | unresolvedType name => "could not find type " ++ quoted name ++ " in the current scope"
  | missingBase cls base => "could not resolve base class " ++ quoted base ++ " of " ++ quoted cls
  | cyclicInheritance cls chain =>
    "class " ++ quoted cls ++ " has a cyclic inheritance chain (" ++ " -> ".intercalate chain ++ ")"
  | cyclicReference cls => "could not resolve class " ++ quoted cls ++ ": cyclic reference"
  | memberConflictBase member base =>
    "member " ++ quoted member ++ " redefined (original in base class " ++ quoted base ++ ")"
  | memberConflictNative member native =>
    "member " ++ quoted member ++ " redefined (original in native class " ++ quoted native ++ ")"
  | duplicateMember member => "member " ++ quoted member ++ " is already declared in this class"
  | hidesGlobal name kind => "class " ++ quoted name ++ " hides a " ++ kind ++ " with the same name"
  | invalidClass cls => "class " ++ quoted cls ++ " is invalid due to earlier errors"
  | dependencyFailed path => "could not resolve script " ++ quoted path
  | unknownMember base member =>
    "cannot find member " ++ quoted member ++ " in base " ++ quoted base
  | instanceFromStatic member =>
    "cannot access instance member " ++ quoted member ++ " from a static function"

/-- Values, operators and calls that do not fit their types. -/
inductive TypeFault
  | incompatibleAssignment (expected found : String)
  | incompatibleArgument (function : String) (index : Nat) (expected found : String)
  | incompatibleReturn (expected found : String)
  | invalidOperator (op operands : String)
  | argumentCount (function : String) (least most found : Nat)
  | notConstant (context : String)
  | invalidCast (source target : String)
  | notCallable (name : String)
  | voidValue (function : String)
  | readOnlyAssignment (name : String)
  | missingReturn (function : String)
  | invalidPattern (message : String)
  | invalidAccessor (member message : String)
  | invalidContext (message : String)
deriving DecidableEq, Repr

def TypeFault.message : TypeFault → String
  | incompatibleAssignment expected found =>
    "cannot assign a value of type " ++ quoted found ++ " as " ++ quoted expected
  | incompatibleArgument function index expected found =>
    "invalid argument " ++ toString index ++ " for " ++ quoted function ++ ": expected " ++
      quoted expected ++ " but got " ++ quoted found
  | incompatibleReturn expected found =>
    "cannot return a value of type " ++ quoted found ++ " as " ++ quoted expected
  | invalidOperator op operands =>
    "invalid operands " ++ operands ++ " for " ++ quoted op ++ " operator"
  | argumentCount function least most found =>
    quoted function ++ " expects " ++ toString least ++ "..=" ++ toString most ++
      " arguments but " ++ toString found ++ " were given"
  | notConstant context => context ++ " must be a constant expression"
  | invalidCast source target => "invalid cast from " ++ quoted source ++ " to " ++ quoted target
  | notCallable name => quoted name ++ " is not a function"
  | voidValue function =>
    "function " ++ quoted function ++ " returns void and cannot be used as a value"
  | readOnlyAssignment name => "cannot assign a new value to read-only " ++ quoted name
  | missingReturn function => "not all code paths of " ++ quoted function ++ " return a value"
  | invalidPattern message => message
  | invalidAccessor member message => "invalid accessor for " ++ quoted member ++ ": " ++ message
  | invalidContext message => message

inductive Complaint
  /-- Reported while the source was read. -/
  | reading (message : String)
  | resolution (fault : ResolutionFault)
  | typing (fault : TypeFault)
  | warning (kind : Warning) (message : String)
deriving DecidableEq, Repr

inductive Severity
  | warning | error
deriving DecidableEq, Repr, Inhabited

def Severity.text : Severity → String
  | warning => "warning"
  | error => "error"

structure Diagnostic where
  severity : Severity
  complaint : Complaint
  span : Span
deriving DecidableEq, Repr

namespace Diagnostic

def reading (message : String) (span : Span) : Diagnostic := ⟨.error, .reading message, span⟩
def resolution (fault : ResolutionFault) (span : Span) :
    Diagnostic := ⟨.error, .resolution fault, span⟩
def typing (fault : TypeFault) (span : Span) : Diagnostic := ⟨.error, .typing fault, span⟩

def warning (kind : Warning) (level : WarningLevel) (message : String) (span : Span) : Diagnostic :=
  ⟨if level = .error then .error else .warning, .warning kind message, span⟩

def isError (d : Diagnostic) : Bool := d.severity == .error

def warning? (d : Diagnostic) : Option Warning :=
  match d.complaint with
  | .warning kind _ => some kind
  | _ => none

def text (d : Diagnostic) : String :=
  d.severity.text ++ " at " ++ d.span.text ++ ": " ++
    match d.complaint with
    | .reading message => message
    | .resolution fault => fault.message
    | .typing fault => fault.message
    | .warning kind message => message ++ " (" ++ kind.code ++ ")"

end Diagnostic

end HotScript
