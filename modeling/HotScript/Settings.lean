import HotScript.Table
import HotScript.Report.Warning
import HotScript.Text.Slice

/-!
Settings of a project.
-/

namespace HotScript

inductive Setting
  | warningsEnabled
  /-- Whether a reload of everything keeps the state of instances. -/
  | keepState
  /-- How deep calls may nest. -/
  | maxCallDepth
  /-- Whether every reported warning is an error. -/
  | warningsAsErrors
deriving DecidableEq, Repr, Inhabited

namespace Setting

def all : List Setting := [warningsEnabled, keepState, maxCallDepth, warningsAsErrors]

def name : Setting → String
  | warningsEnabled => "warnings_enabled"
  | keepState => "keep_state"
  | maxCallDepth => "max_call_depth"
  | warningsAsErrors => "warnings_as_errors"

def defaultValue : Setting → Nat
  | warningsEnabled => 1
  | keepState => 1
  | maxCallDepth => 1024
  | warningsAsErrors => 0

end Setting

structure Settings where
  values : Table Setting Nat := {}
  levels : Table Warning WarningLevel := {}
  /-- The native class that a script without a base extends. -/
  defaultBase : String := "RefCounted"
  sourceExtension : String := "br"
  /-- The extension of files that were read ahead of time. -/
  binaryExtension : String := "brc"
deriving Inhabited

namespace Settings

def get (s : Settings) (k : Setting) : Nat := (s.values.find? k).getD k.defaultValue

def warningsEnabled (s : Settings) : Bool := s.get .warningsEnabled != 0
def keepState (s : Settings) : Bool := s.get .keepState != 0
def maxCallDepth (s : Settings) : Nat := s.get .maxCallDepth

def level (s : Settings) (w : Warning) : WarningLevel :=
  if !s.warningsEnabled then .ignore
  else
    let level := (s.levels.find? w).getD w.defaultLevel
    if level = .warn ∧ s.get .warningsAsErrors ≠ 0 then .error else level

/-- Whether a path names a file that was read ahead of time; letter case does not matter. -/
def isBinaryPath (s : Settings) (path : String) : Bool :=
  match Text.splitLast? '.' path with
  | some (_, ext) => Text.lower ext == Text.lower s.binaryExtension
  | none => false

end Settings

end HotScript
