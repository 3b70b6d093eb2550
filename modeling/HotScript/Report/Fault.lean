import HotScript.Report.Diagnostic

/-!
Failures of whole operations: compiling, loading, reloading and calling.
-/

namespace HotScript

open Text (quoted)

inductive CompileFault
  /-- The analysis left something that has no code. -/
  | internal (message : String) (span : Span)
  /-- The file is not fully analysed. -/
  | invalidAnalysis (path : String)
deriving DecidableEq, Repr

def CompileFault.message : CompileFault → String
  | internal message span => "internal compiler error at " ++ span.text ++ ": " ++ message
  | invalidAnalysis path => "script " ++ quoted path ++ " is not fully analyzed"

inductive LoadFault
  | fileNotFound (path : String)
  | cantRead (path reason : String)
  | parseFailed (path : String) (diagnostics : List Diagnostic)
  | analysisFailed (path : String) (diagnostics : List Diagnostic)
  | compilationFailed (path : String) (cause : CompileFault)
  | invalidScript (path : String)
deriving DecidableEq, Repr

namespace LoadFault

def message : LoadFault → String
  | fileNotFound path => "script file not found: " ++ path
  | cantRead path reason => "cannot read script file " ++ path ++ ": " ++ reason
  | parseFailed path ds =>
    "failed to parse " ++ path ++ " (" ++ toString ds.length ++ " diagnostics)"
  | analysisFailed path ds =>
    "failed to analyze " ++ path ++ " (" ++ toString ds.length ++ " diagnostics)"
  | compilationFailed path cause => "failed to compile " ++ path ++ ": " ++ cause.message
  | invalidScript path => "script " ++ path ++ " is invalid"

def diagnostics : LoadFault → List Diagnostic
  | parseFailed _ ds | analysisFailed _ ds => ds
  | _ => []

end LoadFault

inductive ReloadFault
  /-- Instances are alive and their state was not to be kept. -/
  | inUse (path : String) (count : Nat)
  | load (fault : LoadFault)
  /-- The base has another layout than the new version was compiled for. -/
  | link (path base : String)
deriving DecidableEq, Repr

def ReloadFault.message : ReloadFault → String
  | inUse path count =>
    "cannot reload " ++ path ++ ": " ++ toString count ++ " live instance(s) and keep_state is off"
  | load fault => fault.message
  | link path base =>
    "cannot link " ++ path ++ ": base script " ++ base ++ " changed, recompile required"

inductive ScriptFault
  | load (fault : LoadFault)
  | reload (fault : ReloadFault)
deriving DecidableEq, Repr

inductive CallFault
  | invalidMethod (method : String)
  | tooManyArguments (method : String) (expected found : Nat)
  | tooFewArguments (method : String) (expected found : Nat)
  | invalidArgument (method : String) (index : Nat) (expected : String)
  | instanceIsNull
  | execution (method message : String)
deriving DecidableEq, Repr

def CallFault.message : CallFault → String
  | invalidMethod method => "invalid method " ++ quoted method
  | tooManyArguments method expected found =>
    "too many arguments for " ++ quoted method ++ ": expected at most " ++ toString expected ++
      ", got " ++ toString found
  | tooFewArguments method expected found =>
    "too few arguments for " ++ quoted method ++ ": expected at least " ++ toString expected ++
      ", got " ++ toString found
  | invalidArgument method index expected =>
    "invalid argument " ++ toString index ++ " for " ++ quoted method ++ ": expected " ++ expected
  | instanceIsNull => "instance is null"
  | execution method message => "error executing " ++ quoted method ++ ": " ++ message

end HotScript
