/-!
# Element names

The elements of the three vocabularies of markup, the elements without content, and the components that need no
registration.
-/

namespace ComponentLint.Markup

/-- The elements of HTML. -/
def htmlElements : List String :=
  ["html", "body", "base", "head", "link", "meta", "style", "title", "address", "article",
   "aside", "footer", "header", "h1", "h2", "h3", "h4", "h5", "h6", "hgroup", "nav",
   "section", "div", "dd", "dl", "dt", "figcaption", "figure", "picture", "hr", "img", "li",
   "main", "ol", "p", "pre", "ul", "a", "b", "abbr", "bdi", "bdo", "br", "cite", "code",
   "data", "dfn", "em", "i", "kbd", "mark", "q", "rp", "rt", "rtc", "ruby", "s", "samp",
   "small", "span", "strong", "sub", "sup", "time", "u", "var", "wbr", "area", "audio", "map",
   "track", "video", "embed", "object", "param", "source", "canvas", "script", "noscript",
   "del", "ins", "caption", "col", "colgroup", "table", "thead", "tbody", "td", "th", "tr",
   "button", "datalist", "fieldset", "form", "input", "label", "legend", "meter", "optgroup",
   "option", "output", "progress", "select", "textarea", "details", "dialog", "menu",
   "menuitem", "summary", "content", "element", "shadow", "template", "blockquote", "iframe",
   "tfoot", "slot", "search"]

/-- The elements of SVG. -/
def svgElements : List String :=
  ["a", "animate", "animateMotion", "animateTransform", "audio", "canvas", "circle",
   "clipPath", "defs", "desc", "discard", "ellipse", "feBlend", "feColorMatrix",
   "feComponentTransfer", "feComposite", "feConvolveMatrix", "feDiffuseLighting",
   "feDisplacementMap", "feDistantLight", "feDropShadow", "feFlood", "feFuncA", "feFuncB",
   "feFuncG", "feFuncR", "feGaussianBlur", "feImage", "feMerge", "feMergeNode",
   "feMorphology", "feOffset", "fePointLight", "feSpecularLighting", "feSpotLight", "feTile",
   "feTurbulence", "filter", "foreignObject", "g", "iframe", "image", "line",
   "linearGradient", "marker", "mask", "metadata", "mpath", "path", "pattern", "polygon",
   "polyline", "radialGradient", "rect", "script", "set", "stop", "style", "svg", "switch",
   "symbol", "text", "textPath", "title", "tspan", "unknown", "use", "video", "view"]

/-- The elements of MathML. -/
def mathElements : List String :=
  ["math", "maction", "annotation", "annotation-xml", "menclose", "merror", "mfenced",
   "mfrac", "mi", "mmultiscripts", "mn", "mo", "mover", "mpadded", "mphantom", "mprescripts",
   "mroot", "mrow", "ms", "semantics", "mspace", "msqrt", "mstyle", "msub", "msup",
   "msubsup", "mtable", "mtd", "mtext", "mtr", "munder", "munderover"]

/-- The elements of HTML that have no content and no end tag. -/
def voidElements : List String :=
  ["area", "base", "br", "col", "embed", "hr", "img", "input", "link", "meta", "param", "source", "track", "wbr"]

/-- The components that are always there. -/
def builtInComponents : List String :=
  ["template", "slot", "component", "transition", "transition-group", "keep-alive",
   "teleport", "suspense", "Transition", "TransitionGroup", "KeepAlive", "Teleport",
   "Suspense", "Component", "Slot"]

/-- The vocabulary an element belongs to. -/
inductive Vocabulary where
  | html
  | svg
  | math
  deriving DecidableEq, Repr

/-- Whether a vocabulary has an element of a name. -/
def Vocabulary.knows : Vocabulary → String → Bool
  | .html, name => htmlElements.contains name
  | .svg, name => svgElements.contains name
  | .math, name => mathElements.contains name

/-- Whether an element of HTML has no content. -/
def isVoidName (name : String) : Bool :=
  voidElements.contains name

/-- Whether a component is always there. -/
def isBuiltInComponent (name : String) : Bool :=
  builtInComponents.contains name

end ComponentLint.Markup
