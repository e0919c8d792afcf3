/-!
# Errors

Everything that ends a conversion. No conversion gives a part of a document.
-/

namespace Manuscript

/-- Whom an error concerns. -/
inductive ErrorClass
  /-- The input cannot be converted as it is. -/
  | malformedInput
  /-- The tree breaks the rules on where nodes may stand. -/
  | logicViolation
  /-- Something around the conversion failed. -/
  | environment
deriving DecidableEq, Repr

def ErrorClass.name : ErrorClass → String
  | .malformedInput => "MalformedInput"
  | .logicViolation => "LogicViolation"
  | .environment => "Environment"

inductive Error
  /-- The tree has images and nothing is there to resolve them. -/
  | missingImageResolver (count : Nat)
  | imageNotResolved (url : String)
  | invalidFootnoteIdentifier (identifier : String)
  | imageResolveFailed (url reason : String)
  | imageTimeout (url : String) (secs : Nat)
  | invalidTree (detail : String)
  | unexpectedNode (node position : String)
  | invalidHeadingDepth (depth : UInt8)
  | outputWriteFailed (path cause : String)
  | serializationFailed (detail : String)
  | invalidConfig (detail : String)
  | internal (detail : String)
deriving DecidableEq, Repr

namespace Error

def name : Error → String
  | .missingImageResolver _ => "MissingImageResolver"
  | .imageNotResolved _ => "ImageNotResolved"
  | .invalidFootnoteIdentifier _ => "InvalidFootnoteIdentifier"
  | .imageResolveFailed _ _ => "ImageResolveFailed"
  | .imageTimeout _ _ => "ImageTimeout"
  | .invalidTree _ => "InvalidTree"
  | .unexpectedNode _ _ => "UnexpectedNode"
  | .invalidHeadingDepth _ => "InvalidHeadingDepth"
  | .outputWriteFailed _ _ => "OutputWriteFailed"
  | .serializationFailed _ => "SerializationFailed"
  | .invalidConfig _ => "InvalidConfig"
  | .internal _ => "Internal"

def errorClass : Error → ErrorClass
  | .missingImageResolver _ | .imageNotResolved _ | .invalidFootnoteIdentifier _
  | .imageResolveFailed _ _ | .imageTimeout _ _ => .malformedInput
  | .invalidTree _ | .unexpectedNode _ _ | .invalidHeadingDepth _ => .logicViolation
  | .outputWriteFailed _ _ | .serializationFailed _ | .invalidConfig _ | .internal _ =>
    .environment

def isLogicViolation (e : Error) : Bool :=
  e.errorClass == .logicViolation

def message : Error → String
  | .missingImageResolver count =>
    s!"Document contains {count} image(s) but no image resolver is configured.\n" ++
      "Set one with ConversionConfig::builder().image_resolver(...)."
  | .imageNotResolved url => s!"Image was not resolved: '{url}'"
  | .invalidFootnoteIdentifier identifier =>
    s!"Footnote reference '{identifier}' is not a numeric identifier"
  | .imageResolveFailed url reason => s!"Failed to resolve image '{url}': {reason}"
  | .imageTimeout url secs =>
    s!"Image resolution timed out after {secs}s for '{url}'\nIncrease --image-timeout."
  | .invalidTree detail => s!"Input is not a valid mdast tree: {detail}"
  | .unexpectedNode node position => s!"Unexpected '{node}' node {position}"
  | .invalidHeadingDepth depth => s!"Heading depth must be 1–6, got {depth}"
  | .outputWriteFailed path cause => s!"Failed to write output file '{path}': {cause}"
  | .serializationFailed detail => s!"Failed to serialise document: {detail}"
  | .invalidConfig detail => s!"Invalid configuration: {detail}"
  | .internal detail => s!"Internal error: {detail}"

end Error

end Manuscript
