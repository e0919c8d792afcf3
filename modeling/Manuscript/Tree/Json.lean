import Manuscript.Json.Tagged
import Manuscript.Tree.Basic

/-!
# Markdown trees as JSON

A node is an object whose member `type` holds its tag, followed by the members of its kind. Reading
ignores members of other names, such as positions; absent optional members have no value and absent
lists are empty. A number of depth, an identifier of a footnote and an address of a link or an image
have to be given.
-/

namespace Manuscript

open Json (Fields Variant Tagged Reader Fault)

namespace Node

open Json (natural optional)

def optionalText (s : Option String) : Json :=
  optional .string s

def tagged (tag : String) (members : List (String × Json)) : Json :=
  .object (("type", .string tag) :: members)

mutual

def toJson : Node → Json
  | .paragraph cs => tagged "paragraph" [("children", .array (toJsonAll cs))]
  | .heading depth cs =>
    tagged "heading" [("depth", natural depth.toNat), ("children", .array (toJsonAll cs))]
  | .thematicBreak => tagged "thematicBreak" []
  | .blockquote cs => tagged "blockquote" [("children", .array (toJsonAll cs))]
  | .list ordered start spread cs =>
    tagged "list"
      [("ordered", optional .bool ordered), ("start", optional (natural ·.toNat) start),
        ("spread", optional .bool spread), ("children", .array (toJsonAll cs))]
  | .listItem checked spread cs =>
    tagged "listItem"
      [("checked", optional .bool checked), ("spread", optional .bool spread),
        ("children", .array (toJsonAll cs))]
  | .table align cs =>
    tagged "table"
      [("align", optional (Json.list optionalText) align), ("children", .array (toJsonAll cs))]
  | .tableRow cs => tagged "tableRow" [("children", .array (toJsonAll cs))]
  | .tableCell cs => tagged "tableCell" [("children", .array (toJsonAll cs))]
  | .html value => tagged "html" [("value", .string value)]
  | .code lang info value =>
    tagged "code" [("lang", optionalText lang), ("meta", optionalText info), ("value", .string value)]
  | .yaml value => tagged "yaml" [("value", .string value)]
  | .toml value => tagged "toml" [("value", .string value)]
  | .definition identifier label url title =>
    tagged "definition"
      [("identifier", .string identifier), ("label", optionalText label), ("url", .string url),
        ("title", optionalText title)]
  | .footnoteDefinition identifier label cs =>
    tagged "footnoteDefinition"
      [("identifier", .string identifier), ("label", optionalText label),
        ("children", .array (toJsonAll cs))]
  | .math info value => tagged "math" [("meta", optionalText info), ("value", .string value)]
  | .text value => tagged "text" [("value", .string value)]
  | .emphasis cs => tagged "emphasis" [("children", .array (toJsonAll cs))]
  | .strong cs => tagged "strong" [("children", .array (toJsonAll cs))]
  | .delete cs => tagged "delete" [("children", .array (toJsonAll cs))]
  | .inlineCode value => tagged "inlineCode" [("value", .string value)]
  | .lineBreak => tagged "break" []
  | .link url title cs =>
    tagged "link"
      [("url", .string url), ("title", optionalText title), ("children", .array (toJsonAll cs))]
  | .image url title alt =>
    tagged "image"
      [("url", .string url), ("title", optionalText title), ("alt", optionalText alt)]
  | .linkReference identifier label referenceType cs =>
    tagged "linkReference"
      [("identifier", .string identifier), ("label", optionalText label),
        ("referenceType", optionalText referenceType), ("children", .array (toJsonAll cs))]
  | .imageReference identifier label referenceType alt =>
    tagged "imageReference"
      [("identifier", .string identifier), ("label", optionalText label),
        ("referenceType", optionalText referenceType), ("alt", optionalText alt)]
  | .footnoteReference identifier label =>
    tagged "footnoteReference"
      [("identifier", .string identifier), ("label", optionalText label)]
  | .inlineMath value => tagged "inlineMath" [("value", .string value)]

def toJsonAll : List Node → List Json
  | [] => []
  | n :: rest => toJson n :: toJsonAll rest

end

open Json.Fields (empty required defaulted nestedOrNone)
open Json.Variant (ofFields)

/-- A kind of node that only has children. -/
def parent (tag : String) (node : List Node → Node) : Variant Node :=
  ofFields tag "struct Parent" (nestedOrNone "children") node

/-- A kind of node that only has a text. -/
def literal (tag : String) (node : String → Node) : Variant Node :=
  ofFields tag "struct Literal" (defaulted "value" "" Reader.text) node

def blank (tag : String) (node : Node) : Variant Node :=
  ofFields tag "struct Empty" empty fun _ => node

/-- A member that is a text or has no value. -/
def textOrNone (name : String) : Fields Node (Option (Option String)) (Option String) :=
  Fields.optional name Reader.text

def flagOrNone (name : String) : Fields Node (Option (Option Bool)) (Option Bool) :=
  Fields.optional name Reader.flag

def variants : List (Variant Node) := [
  parent "paragraph" .paragraph,
  ofFields "heading" "struct Heading"
    ((required "depth" Reader.word8).and (nestedOrNone "children"))
    fun (depth, cs) => heading depth cs,
  blank "thematicBreak" .thematicBreak,
  parent "blockquote" .blockquote,
  ofFields "list" "struct List"
    ((flagOrNone "ordered").and ((Fields.optional "start" Reader.word32).and
      ((flagOrNone "spread").and (nestedOrNone "children"))))
    fun (ordered, start, spread, cs) => list ordered start spread cs,
  ofFields "listItem" "struct ListItem"
    ((flagOrNone "checked").and ((flagOrNone "spread").and (nestedOrNone "children")))
    fun (checked, spread, cs) => listItem checked spread cs,
  ofFields "table" "struct Table"
    ((Fields.optional "align" Reader.text.optional.list).and (nestedOrNone "children"))
    fun (align, cs) => table align cs,
  parent "tableRow" .tableRow,
  parent "tableCell" .tableCell,
  literal "html" .html,
  ofFields "code" "struct Code"
    ((textOrNone "lang").and ((textOrNone "meta").and (defaulted "value" "" Reader.text)))
    fun (lang, info, value) => code lang info value,
  literal "yaml" .yaml,
  literal "toml" .toml,
  ofFields "definition" "struct Definition"
    ((defaulted "identifier" "" Reader.text).and ((textOrNone "label").and
      ((defaulted "url" "" Reader.text).and (textOrNone "title"))))
    fun (identifier, label, url, title) => definition identifier label url title,
  ofFields "footnoteDefinition" "struct FootnoteDefinition"
    ((required "identifier" Reader.text).and ((textOrNone "label").and (nestedOrNone "children")))
    fun (identifier, label, cs) => footnoteDefinition identifier label cs,
  ofFields "math" "struct Math"
    ((textOrNone "meta").and (defaulted "value" "" Reader.text))
    fun (info, value) => math info value,
  literal "text" .text,
  parent "emphasis" .emphasis,
  parent "strong" .strong,
  parent "delete" .delete,
  literal "inlineCode" .inlineCode,
  blank "break" .lineBreak,
  ofFields "link" "struct Link"
    ((required "url" Reader.text).and ((textOrNone "title").and (nestedOrNone "children")))
    fun (url, title, cs) => link url title cs,
  ofFields "image" "struct Image"
    ((required "url" Reader.text).and ((textOrNone "title").and (textOrNone "alt")))
    fun (url, title, alt) => image url title alt,
  ofFields "linkReference" "struct LinkReference"
    ((defaulted "identifier" "" Reader.text).and ((textOrNone "label").and
      ((textOrNone "referenceType").and (nestedOrNone "children"))))
    fun (identifier, label, referenceType, cs) => linkReference identifier label referenceType cs,
  ofFields "imageReference" "struct ImageReference"
    ((defaulted "identifier" "" Reader.text).and ((textOrNone "label").and
      ((textOrNone "referenceType").and (textOrNone "alt"))))
    fun (identifier, label, referenceType, alt) =>
      imageReference identifier label referenceType alt,
  ofFields "footnoteReference" "struct FootnoteReference"
    ((required "identifier" Reader.text).and (textOrNone "label"))
    fun (identifier, label) => footnoteReference identifier label,
  literal "inlineMath" .inlineMath]

def records : Tagged Node := ⟨"Node", variants⟩

def reader : Reader Node :=
  records.reader

end Node

namespace Tree

def toJson (tree : Tree) : Json :=
  .object [("children", .array (Node.toJsonAll tree.children))]

def reader : Reader Tree :=
  ((Fields.defaulted "children" [] Node.reader.list).map Tree.mk).reader "struct Root"

def ofValue (value : Json) : Except Fault Tree :=
  reader.ofValue value

def ofText (text : String) : Except Fault Tree :=
  reader.ofText (Text.Glyph.ofString text)

def ofBytes (bytes : List UInt8) : Except Fault Tree :=
  reader.ofText (Text.Glyph.ofBytes bytes)

end Tree

end Manuscript
