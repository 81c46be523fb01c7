/-
# Names in drawings

Names are read in lower case, but some names of elements and attributes of
drawings have capitals: they get them back.  Some elements of the page itself
end a drawing when they turn up in it (`endsForeign`).
-/

import DocHighlighter.Html.Node

namespace DocHighlighter
namespace Html
namespace Foreign

/-- The elements of drawings whose names have capitals. -/
def elementNames : List String :=
  ["altGlyph", "altGlyphDef", "altGlyphItem", "animateColor", "animateMotion", "animateTransform",
    "clipPath", "feBlend", "feColorMatrix", "feComponentTransfer", "feComposite",
    "feConvolveMatrix", "feDiffuseLighting", "feDisplacementMap", "feDistantLight",
    "feDropShadow", "feFlood", "feFuncA", "feFuncB", "feFuncG", "feFuncR", "feGaussianBlur",
    "feImage", "feMerge", "feMergeNode", "feMorphology", "feOffset", "fePointLight",
    "feSpecularLighting", "feSpotLight", "feTile", "feTurbulence", "foreignObject", "glyphRef",
    "linearGradient", "radialGradient", "textPath"]

/-- The attributes of drawings whose names have capitals. -/
def attributeNames : List String :=
  ["attributeName", "attributeType", "baseFrequency", "baseProfile", "calcMode", "clipPathUnits",
    "diffuseConstant", "edgeMode", "filterUnits", "glyphRef", "gradientTransform",
    "gradientUnits", "kernelMatrix", "kernelUnitLength", "keyPoints", "keySplines", "keyTimes",
    "lengthAdjust", "limitingConeAngle", "markerHeight", "markerUnits", "markerWidth",
    "maskContentUnits", "maskUnits", "numOctaves", "pathLength", "patternContentUnits",
    "patternTransform", "patternUnits", "pointsAtX", "pointsAtY", "pointsAtZ", "preserveAlpha",
    "preserveAspectRatio", "primitiveUnits", "refX", "refY", "repeatCount", "repeatDur",
    "requiredExtensions", "requiredFeatures", "specularConstant", "specularExponent",
    "spreadMethod", "startOffset", "stdDeviation", "stitchTiles", "surfaceScale",
    "systemLanguage", "tableValues", "targetX", "targetY", "textLength", "viewBox", "viewTarget",
    "xChannelSelector", "yChannelSelector", "zoomAndPan"]

/-- The name among some that reads as the given one in lower case, else that one. -/
def capitalised (names : List String) (name : String) : String :=
  (names.find? fun n => n.toList.map Char.toLower == name.toList).getD name

/-- The tag of an element in a drawing or a formula. -/
def tag (space : Space) (name : String) (attributes : List Attribute) : Tag :=
  match space with
  | .drawing =>
    ⟨capitalised elementNames name,
      attributes.map fun a => { a with name := capitalised attributeNames a.name }, space⟩
  | _ => ⟨name, attributes, space⟩

/-- Elements of the page itself that end a drawing or a formula. -/
def endingNames : List String :=
  ["b", "big", "blockquote", "body", "br", "center", "code", "dd", "div", "dl", "dt", "em",
    "embed", "h1", "h2", "h3", "h4", "h5", "h6", "head", "hr", "i", "img", "li", "listing",
    "menu", "meta", "nobr", "ol", "p", "pre", "ruby", "s", "small", "span", "strong", "strike",
    "sub", "sup", "table", "tt", "u", "ul", "var"]

/-- Whether a start tag ends a drawing or a formula. -/
def endsForeign (name : String) (attributes : List Attribute) : Bool :=
  endingNames.contains name ||
    (name == "font" && attributes.any fun a => ["color", "face", "size"].contains a.name)

end Foreign
end Html
end DocHighlighter
