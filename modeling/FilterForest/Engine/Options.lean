import FilterForest.Json.Printer
import FilterForest.Json.Reader
import FilterForest.Json.Record

/-!
# Options

What can be set for compiling, and the errors of setting it: texts that are not what they should
be, formats that there are not, and a depth that leaves out the roots.
-/

namespace FilterForest

inductive Refusal
  | json
  | format (name : String)
  | zeroDepth
deriving DecidableEq

namespace Refusal

def kind : Refusal → String
  | json => "Json"
  | format _ => "InvalidFormat"
  | zeroDepth => "InvalidOptions"

/-- The message of a refusal. Texts that are not JSON have none of their own. -/
def message? : Refusal → Option String
  | json => none
  | format name => some ("Invalid output format: " ++ name)
  | zeroDepth => some "Invalid options: maxGroupDepth must be at least 1"

end Refusal

structure Options where
  /-- The most groups on a path from a root; groups below are left out. -/
  maxGroupDepth : Nat
  /-- Whether groups with a missing parent are reported. -/
  reportOrphans : Bool
  /-- Whether results are kept for the next time. -/
  cache : Bool
deriving DecidableEq

namespace Options

def default : Options := ⟨64, true, false⟩

/-- Options under which the roots at least are compiled. -/
def validate (options : Options) : Except Refusal Options :=
  if options.maxGroupDepth = 0 then .error .zeroDepth else .ok options

def ofJson? (value : Json) : Option Options := do
  match ← Json.fields? ["maxGroupDepth", "reportOrphans", "cache"] value with
  | [maxGroupDepth, reportOrphans, cache] =>
    return {
      maxGroupDepth := ← Json.withDefault default.maxGroupDepth Json.natural64? maxGroupDepth
      reportOrphans := ← Json.withDefault default.reportOrphans Json.bool? reportOrphans
      cache := ← Json.withDefault default.cache Json.bool? cache }
  | _ => none

/-- Reads options as they are. -/
def ofText (s : List Char) : Except Refusal Options :=
  match (Json.ofText? s).bind ofJson? with
  | some options => .ok options
  | none => .error .json

/-- Reads options and refuses those under which nothing is compiled. -/
def ofValidText (s : List Char) : Except Refusal Options := do (← ofText s).validate

def toJson (options : Options) : Json :=
  .object [("maxGroupDepth", .integer options.maxGroupDepth),
    ("reportOrphans", .bool options.reportOrphans), ("cache", .bool options.cache)]

end Options
end FilterForest
