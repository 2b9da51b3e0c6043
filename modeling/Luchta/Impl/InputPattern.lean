import Luchta.Framework.Text
import Luchta.Impl.Pipeline

/-!
# Input patterns

The reference syntax shared by task inputs and by dependency filters: `^^path`, `^path`, `#path`,
`pkg#path` and `path`, tried in this order.
-/

namespace Luchta.Impl

open Luchta.Framework

inductive InputSemantics
  | Literal
  | Wildcard
  deriving DecidableEq

/-- Input pattern reference used in task cache input definitions. -/
inductive InputPattern
  /-- `#path`: path resolved from workspace root. -/
  | Root (path : String)
  /-- `pkg#path`: path resolved from specific package. -/
  | Specific (package : PackageName) (path : String)
  /-- `^path`: path resolved from direct upstream workspace packages. -/
  | DirectUpstream (path : String)
  /-- `^^path`: path resolved from transitive upstream workspace packages. -/
  | TransitiveUpstream (path : String)
  /-- `path`: path resolved from same package. -/
  | SamePackage (path : String)
  deriving DecidableEq

def GLOB_CHARS : List Char := ['*', '?', '[', '{']

def classifyPattern (pattern : String) : InputSemantics :=
  if pattern.toList.any (· ∈ GLOB_CHARS) then .Wildcard else .Literal

namespace InputPattern

def path : InputPattern → String
  | Root path | DirectUpstream path | TransitiveUpstream path | SamePackage path => path
  | Specific _ path => path

def semantics : InputPattern → InputSemantics
  | DirectUpstream _ | TransitiveUpstream _ => .Wildcard
  | Root path | Specific _ path | SamePackage path => classifyPattern path

end InputPattern

/-! ## Parsing -/

/-- No result when the value lacks the prefix, so that the caller tries the next form. -/
def parsePrefixedValue (value pre : String) (ctor : String → InputPattern) (emptyMessage : String) :
    Option (Except String InputPattern) :=
  (stripPrefixStr value pre).map fun remainder =>
    if remainder = "" then .error emptyMessage else .ok (ctor remainder)

def parseRootInput (value : String) : Option (Except String InputPattern) :=
  parsePrefixedValue value "#" .Root "root input must include path"

def parseSpecificInput (value : String) : Option (Except String InputPattern) :=
  (splitOnce '#' value).map fun (package, path) =>
    if package = "" ∨ path = "" then .error "specific input must be `package#path`"
    else .ok (.Specific ⟨package⟩ path)

def parseSamePackageInput (value : String) : Except String InputPattern :=
  if value = "" then .error "same-package input must include path" else .ok (.SamePackage value)

/-- `^^` is tried before `^`, since the latter is a prefix of the former. -/
def InputPattern.fromStr (value : String) : Except String InputPattern :=
  ((parsePrefixedValue value "^^" .TransitiveUpstream
      "transitive upstream input must include path").or
    ((parsePrefixedValue value "^" .DirectUpstream "direct upstream input must include path").or
      ((parseRootInput value).or (parseSpecificInput value)))).getD (parseSamePackageInput value)

example : InputPattern.fromStr "app#src/*.ts" = .ok (.Specific ⟨"app"⟩ "src/*.ts") := by decide

/-! ## Negation and escapes -/

/-- A leading `!` with the body; an escaped one is no negation, and the backslash stays. -/
def splitNegation (pattern : String) : Bool × String :=
  match stripPrefix '!' pattern with
  | some body => (true, body)
  | none => (false, pattern)

/-- Returns true when `pattern` excludes rather than includes. -/
def isNegated (pattern : String) : Bool := (splitNegation pattern).1

def unescapeChars : List Char → List Char
  | [] => []
  | '\\' :: c :: cs => c :: unescapeChars cs
  | c :: cs => c :: unescapeChars cs

/-- Removes glob escape backslashes; a trailing lone one is kept. -/
def unescapeLiteral (pattern : String) : String := String.ofList (unescapeChars pattern.toList)

example : unescapeLiteral "\\!important\\\\.txt\\" = "!important\\.txt\\" := by decide

end Luchta.Impl
