/-!
# Failures and where they happen

A conversion that cannot go on ends with a `Failure`: a cause, how grave it is, which part of the
library issued it, and the `Site` in the nested graph levels where it happened. `Cause.message`
holds the wording of every cause. A site is attached by `Failure.locate`, which keeps a site that an
inner level has already attached.
-/

namespace TensorGraph

/-- How grave a failure is. -/
inductive Severity where
  | info
  | warning
  | error
  | critical
  deriving DecidableEq, Repr

/-- The name of a severity in reports. -/
def Severity.text : Severity → String
  | .info => "INFO"
  | .warning => "WARNING"
  | .error => "ERROR"
  | .critical => "CRITICAL"

/-- The classes of failures. None of them goes away on a second try. -/
inductive FailureKind where
  /-- A declared shape entry is neither a length nor a symbol name. -/
  | malformedInputSpec
  /-- No handler serves a primitive, or no function a call. -/
  | unknownOperation
  /-- A handler could not emit its nodes. -/
  | handlerFailure
  /-- An output has no shape and element type. -/
  | unresolvedOutputMetadata
  /-- Two sources disagree on the shape or element type of a name. -/
  | metadataConflict
  /-- A name was declared twice with different content. -/
  | duplicateDeclaration
  /-- A program could not be traced. -/
  | traceFailure
  deriving DecidableEq, Repr

/-- The description of a class of failures. -/
def FailureKind.text : FailureKind → String
  | .malformedInputSpec => "malformed input spec"
  | .unknownOperation => "unknown operation"
  | .handlerFailure => "handler failure"
  | .unresolvedOutputMetadata => "unresolved output metadata"
  | .metadataConflict => "metadata conflict"
  | .duplicateDeclaration => "duplicate declaration"
  | .traceFailure => "trace failure"

/-- A place in the nested graph levels of a conversion. -/
structure Site where
  /-- Nesting depth; the top level has depth 0. -/
  depth : Nat
  /-- The names of the enclosing call instances, outermost first. -/
  path : List String
  /-- The position of the equation in its level. -/
  equation : Option Nat
  /-- The primitive of that equation. -/
  primitive : Option String
  deriving DecidableEq, Repr

namespace Site

/-- A graph level as a whole. -/
def level (depth : Nat) (path : List String) : Site :=
  { depth, path, equation := none, primitive := none }

/-- The outermost level. -/
def top : Site := level 0 []

/-- An equation of a level. -/
def withEquation (site : Site) (index : Nat) (primitive : String) : Site :=
  { site with equation := some index, primitive := some primitive }

/-- The level of a call instance inside this level. -/
def inside (site : Site) (callName : String) : Site :=
  level (site.depth + 1) (site.path ++ [callName])

/-- A site in words. -/
def text (site : Site) : String :=
  "depth " ++ toString site.depth ++
    (if site.path.isEmpty then "" else " in " ++ "/".intercalate site.path) ++
    (match site.equation with
      | none => ""
      | some i => ", equation #" ++ toString i) ++
    (match site.primitive with
      | none => ""
      | some p => " (" ++ p ++ ")")

end Site

/-- Why a conversion cannot go on. -/
inductive Cause where
  | malformedSpec (detail : String)
  | unknownPrimitive (primitive : String)
  | unknownCallTarget (function : String)
  | handler (primitive detail : String)
  | unresolvedOutput (name detail : String)
  | conflict (name detail : String)
  | duplicate (what name : String)
  | trace (detail : String)
  /-- A cause that is given only by its class and its message. -/
  | stated (kind : FailureKind) (message : String)
  deriving DecidableEq, Repr

namespace Cause

/-- The class of a cause. -/
def kind : Cause → FailureKind
  | .malformedSpec _ => .malformedInputSpec
  | .unknownPrimitive _ => .unknownOperation
  | .unknownCallTarget _ => .unknownOperation
  | .handler _ _ => .handlerFailure
  | .unresolvedOutput _ _ => .unresolvedOutputMetadata
  | .conflict _ _ => .metadataConflict
  | .duplicate _ _ => .duplicateDeclaration
  | .trace _ => .traceFailure
  | .stated kind _ => kind

/-- The message of a cause. -/
def message : Cause → String
  | .malformedSpec detail => detail
  | .unknownPrimitive primitive => "no handler registered for primitive '" ++ primitive ++ "'"
  | .unknownCallTarget function => "call target '" ++ function ++ "' is not a registered function"
  | .handler primitive detail => "'" ++ primitive ++ "': " ++ detail
  | .unresolvedOutput name detail => "output '" ++ name ++ "' has no shape/dtype record: " ++ detail
  | .conflict name detail => "conflicting metadata for '" ++ name ++ "': " ++ detail
  | .duplicate what name => what ++ " '" ++ name ++ "' is already declared with different content"
  | .trace detail => detail
  | .stated _ message => message

/-- The part of the library that issues a cause. -/
def issuer : Cause → String
  | .malformedSpec _ => "symbols"
  | .unknownPrimitive _ => "registry"
  | .unknownCallTarget _ => "graph_builder"
  | .handler primitive _ => primitive
  | .unresolvedOutput _ _ => "graph_builder"
  | .conflict _ _ => "graph_builder"
  | .duplicate _ _ => "graph_builder"
  | .trace _ => "tracer"
  | .stated _ _ => "lowergraph"

end Cause

/-- A cause with its circumstances. -/
structure Failure where
  severity : Severity
  cause : Cause
  issuer : String
  site : Option Site
  deriving DecidableEq, Repr

namespace Failure

/-- A failure with the usual severity and issuer, at no site yet. -/
def of (cause : Cause) : Failure :=
  { severity := .error, cause, issuer := cause.issuer, site := none }

/-- A program could not be traced. -/
def trace (detail : String) : Failure :=
  of (.trace detail)

/-- A handler could not emit its nodes. -/
def handler (primitive detail : String) : Failure :=
  of (.handler primitive detail)

/-- An output has no record. -/
def unresolvedOutput (name detail : String) : Failure :=
  of (.unresolvedOutput name detail)

/-- Two sources disagree on a name. -/
def conflict (name detail : String) : Failure :=
  of (.conflict name detail)

/-- A name is taken by something else. -/
def duplicate (what name : String) : Failure :=
  of (.duplicate what name)

/-- A shape or parameter is malformed. -/
def malformedSpec (detail : String) : Failure :=
  of (.malformedSpec detail)

/-- The same failure, issued by another part. -/
def issuedBy (f : Failure) (issuer : String) : Failure :=
  { f with issuer }

/-- Attach a site, unless an inner level has attached one. -/
def locate (f : Failure) (site : Site) : Failure :=
  match f.site with
  | none => { f with site := some site }
  | some _ => f

/-- The class of a failure. -/
def kind (f : Failure) : FailureKind :=
  f.cause.kind

/-- The message of a failure. -/
def message (f : Failure) : String :=
  f.cause.message

/-- A failure in one line: class, message and site. -/
def text (f : Failure) : String :=
  f.kind.text ++ ": " ++ f.message ++
    match f.site with
    | none => ""
    | some site => " (at " ++ site.text ++ ")"

/-- The site in reports. -/
def siteText (f : Failure) : String :=
  match f.site with
  | none => "top level"
  | some site => site.text

/-- A failure in the form of a report. -/
def report (f : Failure) : String :=
  " | ".intercalate ["LOWERGRAPH", f.severity.text, f.siteText, f.message]

/-- A report that also names the issuer. -/
def issuerReport (f : Failure) : String :=
  " | ".intercalate ["LOWERGRAPH", f.severity.text, f.issuer, f.siteText, f.message]

@[simp] theorem site_locate_of_some {f : Failure} {inner : Site} (h : f.site = some inner)
    (site : Site) :
    (f.locate site).site = some inner := by
  simp [Failure.locate, h]

end Failure

end TensorGraph
