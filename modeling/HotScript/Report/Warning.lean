/-!
Warnings: their codes, and how loud each is.
-/

namespace HotScript

inductive WarningLevel
  | ignore | warn | error
deriving DecidableEq, Repr, Inhabited

def WarningLevel.title : WarningLevel → String
  | ignore => "Ignore"
  | warn => "Warn"
  | error => "Error"

inductive Warning
  | unusedVariable | unusedLocalConstant | unusedParameter
  | shadowedVariable | shadowedVariableBaseClass
  | unreachableCode | standaloneExpression
  | narrowingConversion | integerDivision
  | unsafePropertyAccess | unsafeMethodAccess | unsafeConversion | unsafeCallArgument
  | staticCalledOnInstance | returnValueDiscarded | intAsEnumWithoutCast
  | inferenceOnVariant | confusableLocalDeclaration
deriving DecidableEq, Repr, Inhabited

namespace Warning

def all : List Warning :=
  [unusedVariable, unusedLocalConstant, unusedParameter, shadowedVariable,
    shadowedVariableBaseClass, unreachableCode, standaloneExpression, narrowingConversion,
    integerDivision, unsafePropertyAccess, unsafeMethodAccess, unsafeConversion,
    unsafeCallArgument, staticCalledOnInstance, returnValueDiscarded, intAsEnumWithoutCast,
    inferenceOnVariant, confusableLocalDeclaration]

def code : Warning → String
  | unusedVariable => "UNUSED_VARIABLE"
  | unusedLocalConstant => "UNUSED_LOCAL_CONSTANT"
  | unusedParameter => "UNUSED_PARAMETER"
  | shadowedVariable => "SHADOWED_VARIABLE"
  | shadowedVariableBaseClass => "SHADOWED_VARIABLE_BASE_CLASS"
  | unreachableCode => "UNREACHABLE_CODE"
  | standaloneExpression => "STANDALONE_EXPRESSION"
  | narrowingConversion => "NARROWING_CONVERSION"
  | integerDivision => "INTEGER_DIVISION"
  | unsafePropertyAccess => "UNSAFE_PROPERTY_ACCESS"
  | unsafeMethodAccess => "UNSAFE_METHOD_ACCESS"
  | unsafeConversion => "UNSAFE_CAST"
  | unsafeCallArgument => "UNSAFE_CALL_ARGUMENT"
  | staticCalledOnInstance => "STATIC_CALLED_ON_INSTANCE"
  | returnValueDiscarded => "RETURN_VALUE_DISCARDED"
  | intAsEnumWithoutCast => "INT_AS_ENUM_WITHOUT_CAST"
  | inferenceOnVariant => "INFERENCE_ON_VARIANT"
  | confusableLocalDeclaration => "CONFUSABLE_LOCAL_DECLARATION"

def ofCode? (s : String) : Option Warning :=
  all.find? (·.code == s)

/-- How loud a warning is when no setting says otherwise.  Those about unsafe access fire on every
untyped access, so they have to be asked for. -/
def defaultLevel : Warning → WarningLevel
  | unsafePropertyAccess | unsafeMethodAccess | unsafeConversion | unsafeCallArgument
  | returnValueDiscarded => .ignore
  | _ => .warn

end Warning

end HotScript
