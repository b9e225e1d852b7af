/-! What a field of an entry template may refer to. A path starts at a text and goes on to
characters of it or to members of what it has reached: kinds of values, and the operations and
methods that they have. -/
namespace ApiScaffold

/-- The kinds of what a field may refer to. Operations and methods belong to one value or are
free. -/
inductive Referent.Kind where
  | text
  | object
  | kind
  | tuple
  | nothing
  | method
  | operation
  | freeMethod
  | freeOperation
  deriving DecidableEq, Repr

/-- An operation or a method, and the kind that brings it in. -/
structure Referent.Member where
  name : String
  owner : Referent.Kind
  isOperation : Bool
  deriving DecidableEq, Repr

inductive Referent where
  | nothing
  | text (s : List Char)
  | kind (k : Referent.Kind)
  | kinds (ks : List Referent.Kind)
  | bound (subject : Referent) (m : Referent.Member)
  | free (m : Referent.Member)
  deriving DecidableEq, Repr

namespace Referent

namespace Kind

def name : Kind → String
  | .text => "str"
  | .object => "object"
  | .kind => "type"
  | .tuple => "tuple"
  | .nothing => "NoneType"
  | .method => "builtin_function_or_method"
  | .operation => "method-wrapper"
  | .freeMethod => "method_descriptor"
  | .freeOperation => "wrapper_descriptor"

def lineage (k : Kind) : List Kind :=
  if k = .object then [k] else [k, .object]

def base? (k : Kind) : Option Kind :=
  k.lineage[1]?

def about? : Kind → Option String
  | .text => some <|
      "str(object='') -> str\nstr(bytes_or_buffer[, encoding[, errors]]) -> str\n\n" ++
      "Create a new string object from the given object. If encoding or\n" ++
      "errors is specified, then the object must expose a data buffer\n" ++
      "that will be decoded using the given encoding and error handler.\n" ++
      "Otherwise, returns the result of object.__str__() (if defined)\nor repr(object).\n" ++
      "encoding defaults to sys.getdefaultencoding().\nerrors defaults to 'strict'."
  | .object => some <|
      "The base class of the class hierarchy.\n\n" ++
      "When called, it accepts no arguments and returns a new featureless\n" ++
      "instance that has no instance attributes and cannot be given any.\n"
  | .kind => some <|
      "type(object) -> the object's type\ntype(name, bases, dict, **kwds) -> a new type"
  | .tuple => some <|
      "Built-in immutable sequence.\n\nIf no argument is given, the constructor returns an empty tuple.\n" ++
      "If iterable is specified the tuple is initialized from iterable's items.\n\n" ++
      "If the argument is a tuple, the return value is the same object."
  | _ => none

def operations : Kind → List String
  | .text =>
    ["__add__", "__contains__", "__eq__", "__ge__", "__getattribute__", "__getitem__", "__gt__",
      "__hash__", "__iter__", "__le__", "__len__", "__lt__", "__mod__", "__mul__", "__ne__",
      "__repr__", "__rmod__", "__rmul__", "__str__"]
  | .object =>
    ["__delattr__", "__eq__", "__ge__", "__getattribute__", "__gt__", "__hash__", "__init__",
      "__le__", "__lt__", "__ne__", "__repr__", "__setattr__", "__str__"]
  | .kind =>
    ["__call__", "__delattr__", "__getattribute__", "__init__", "__or__", "__repr__", "__ror__",
      "__setattr__"]
  | .tuple =>
    ["__add__", "__contains__", "__eq__", "__ge__",
      "__getattribute__", "__getitem__", "__gt__", "__hash__",
     "__iter__", "__le__", "__len__", "__lt__", "__mul__", "__ne__", "__repr__", "__rmul__"]
  | .nothing =>
    ["__bool__", "__repr__"]
  | .method | .operation =>
    ["__call__", "__eq__", "__ge__", "__getattribute__", "__gt__", "__hash__", "__le__", "__lt__",
      "__ne__", "__repr__"]
  | .freeMethod | .freeOperation =>
    ["__call__", "__get__", "__getattribute__", "__repr__"]

def methods : Kind → List String
  | .text =>
    ["__format__", "__getnewargs__", "__sizeof__", "capitalize", "casefold",
      "center", "count", "encode", "endswith", "expandtabs", "find", "format", "format_map",
      "index", "isalnum", "isalpha", "isascii", "isdecimal", "isdigit", "isidentifier", "islower",
      "isnumeric", "isprintable", "isspace", "istitle", "isupper", "join", "ljust", "lower",
      "lstrip", "partition", "removeprefix", "removesuffix", "replace", "rfind", "rindex", "rjust",
     "rpartition", "rsplit", "rstrip", "split", "splitlines", "startswith", "strip", "swapcase",
     "title", "translate", "upper", "zfill"]
  | .object =>
    ["__dir__", "__format__", "__getstate__", "__reduce__", "__reduce_ex__", "__sizeof__"]
  | .kind =>
    ["__dir__", "__instancecheck__", "__sizeof__", "__subclasscheck__", "__subclasses__", "mro"]
  | .tuple =>
    ["__getnewargs__", "count", "index"]
  | .nothing =>
    []
  | .method | .operation | .freeMethod | .freeOperation =>
    ["__reduce__"]

/-- The member that a kind itself brings in under a name. -/
def own? (k : Kind) (name : String) : Option Member :=
  if k.operations.contains name then some ⟨name, k, true⟩
  else if k.methods.contains name then some ⟨name, k, false⟩
  else none

/-- The member that a kind has under a name, from the nearest kind that brings one in. -/
def member? (k : Kind) (name : String) : Option Member :=
  k.lineage.findSome? (·.own? name)

end Kind

def kindOf : Referent → Kind
  | .nothing => .nothing
  | .text _ => .text
  | .kind _ => .kind
  | .kinds _ => .tuple
  | .bound _ m => if m.isOperation then .operation else .method
  | .free m => if m.isOperation then .freeOperation else .freeMethod

def ofString (s : String) : Referent :=
  .text s.toList

def ofString? (s : Option String) : Referent :=
  s.elim .nothing ofString

def ofKind? (k : Kind) : String → Option Referent
  | "__name__" | "__qualname__" => some (ofString k.name)
  | "__module__" => some (ofString "builtins")
  | "__base__" => some (k.base?.elim .nothing .kind)
  | "__bases__" => some (.kinds k.base?.toList)
  | "__mro__" => some (.kinds k.lineage)
  | "__doc__" => some (ofString? k.about?)
  | _ => none

/-- A name with the kind that it belongs to. -/
def ownName (k : Kind) (name : String) : Option Referent :=
  some (ofString (k.name ++ "." ++ name))

def ofMember? : Referent → String → Option Referent
  | .bound _ m, "__name__" | .free m, "__name__" => some (ofString m.name)
  | .free m, "__qualname__" => ownName m.owner m.name
  | .bound (.kind k) m, "__qualname__" => ownName (if m.isOperation then m.owner else k) m.name
  | .bound subject m, "__qualname__" =>
    ownName (if m.isOperation then m.owner else subject.kindOf) m.name
  | .bound subject _, "__self__" => some subject
  | .bound _ m, "__objclass__" => if m.isOperation then some (.kind m.owner) else none
  | .free m, "__objclass__" => some (.kind m.owner)
  | .bound _ m, "__module__" => if m.isOperation then none else some .nothing
  | _, _ => none

/-- The member of a referent with a name. A kind has the members of its values as well,
before its own. -/
def member? (r : Referent) (name : String) : Option Referent :=
  let bound := (r.kindOf.member? name).map (.bound r)
  if name = "__class__" then some (.kind r.kindOf)
  else
    match r with
    | .kind k => ofKind? k name <|> (k.member? name).map .free <|> bound
    | r =>
      ofMember? r name <|> (if name = "__doc__" then some (ofString? r.kindOf.about?) else none) <|>
        bound

/-- A referent in the message that it has no such member. -/
def described : Referent → String
  | .kind k => s!"type object '{k.name}'"
  | r => s!"'{r.kindOf.name}' object"

/-- A referent in the message that it has no parts. -/
def undivided : Referent → String
  | .kind k => s!"type '{k.name}'"
  | r => s!"'{r.kindOf.name}' object"

def kindText (k : Kind) : String :=
  s!"<class '{k.name}'>"

def toText : Referent → List Char
  | .nothing => "None".toList
  | .text s => s
  | .kind k => (kindText k).toList
  | .kinds [k] => ("(" ++ kindText k ++ ",)").toList
  | .kinds ks => ("(" ++ ", ".intercalate (ks.map kindText) ++ ")").toList
  | .bound subject m =>
    (if m.isOperation then s!"<method-wrapper '{m.name}' of {subject.kindOf.name} object>"
      else s!"<built-in method {m.name} of {subject.kindOf.name} object>").toList
  | .free m =>
    let sort := if m.isOperation then "slot wrapper" else "method"
    (s!"<{sort} '{m.name}' of '{m.owner.name}' objects>").toList

end Referent
end ApiScaffold
