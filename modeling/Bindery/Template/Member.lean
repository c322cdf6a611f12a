import Bindery.Template.PartClass

/-!
# Members of classes

What the classes of parts define, by name and in order. Most of it are routines: things that could
be done with a part and that a template can only name.
-/

namespace Bindery.Template

/-- What a class can define under a name. -/
inductive MemberKind where
  /-- An operator. -/
  | operator
  /-- A method. -/
  | method
  /-- A method that belongs to the class itself. -/
  | classMethod
  /-- A method that belongs to no one. -/
  | staticMethod
  /-- What makes new members. -/
  | maker
  /-- An attribute that is worked out. -/
  | derived
  /-- An attribute that is stored. -/
  | stored
  /-- Nothing, where other classes have something. -/
  | absent
  /-- What the class says about its members. -/
  | description
  deriving DecidableEq, Repr

namespace PartClass

/-- What a class defines, in stretches of one kind. -/
def stretches : PartClass → List (MemberKind × List String)
  | anything =>
    [(.maker, ["__new__"]),
     (.operator,
       ["__repr__", "__hash__", "__str__", "__getattribute__", "__setattr__", "__delattr__",
        "__lt__", "__le__", "__eq__", "__ne__", "__gt__", "__ge__", "__init__"]),
     (.method, ["__reduce_ex__", "__reduce__", "__getstate__"]),
     (.classMethod, ["__subclasshook__", "__init_subclass__"]),
     (.method, ["__format__", "__sizeof__", "__dir__"]),
     (.derived, ["__class__"]),
     (.description, ["__doc__"])]
  | text =>
    [(.maker, ["__new__"]),
     (.operator,
       ["__repr__", "__hash__", "__str__", "__getattribute__", "__lt__", "__le__", "__eq__",
        "__ne__", "__gt__", "__ge__", "__iter__", "__mod__", "__rmod__", "__len__",
        "__getitem__", "__add__", "__mul__", "__rmul__", "__contains__"]),
     (.method,
       ["encode", "replace", "split", "rsplit", "join", "capitalize", "casefold", "title",
        "center", "count", "expandtabs", "find", "partition", "index", "ljust", "lower",
        "lstrip", "rfind", "rindex", "rjust", "rstrip", "rpartition", "splitlines", "strip",
        "swapcase", "translate", "upper", "startswith", "endswith", "removeprefix",
        "removesuffix", "isascii", "islower", "isupper", "istitle", "isspace", "isdecimal",
        "isdigit", "isnumeric", "isalpha", "isalnum", "isidentifier", "isprintable", "zfill",
        "format", "format_map", "__format__"]),
     (.staticMethod, ["maketrans"]),
     (.method, ["__sizeof__", "__getnewargs__"]),
     (.description, ["__doc__"])]
  | classes =>
    [(.maker, ["__new__"]),
     (.operator,
       ["__repr__", "__call__", "__getattribute__", "__setattr__", "__delattr__", "__init__",
        "__or__", "__ror__"]),
     (.method, ["mro", "__subclasses__"]),
     (.classMethod, ["__prepare__"]),
     (.method, ["__instancecheck__", "__subclasscheck__", "__dir__", "__sizeof__"]),
     (.stored,
       ["__basicsize__", "__itemsize__", "__flags__", "__weakrefoffset__", "__base__",
        "__dictoffset__", "__mro__"]),
     (.derived,
       ["__name__", "__qualname__", "__bases__", "__module__", "__abstractmethods__", "__dict__",
        "__doc__", "__text_signature__", "__annotations__"])]
  | row =>
    [(.maker, ["__new__"]),
     (.operator,
       ["__repr__", "__hash__", "__getattribute__", "__lt__", "__le__", "__eq__", "__ne__",
        "__gt__", "__ge__", "__iter__", "__len__", "__getitem__", "__add__", "__mul__",
        "__rmul__", "__contains__"]),
     (.method, ["__getnewargs__", "index", "count"]),
     (.classMethod, ["__class_getitem__"]),
     (.description, ["__doc__"])]
  | nothing =>
    [(.maker, ["__new__"]),
     (.operator, ["__repr__", "__bool__"]),
     (.description, ["__doc__"])]
  | truth =>
    [(.maker, ["__new__"]),
     (.operator,
       ["__repr__", "__and__", "__rand__", "__xor__", "__rxor__", "__or__", "__ror__"]),
     (.description, ["__doc__"])]
  | number =>
    [(.maker, ["__new__"]),
     (.operator,
       ["__repr__", "__hash__", "__getattribute__", "__lt__", "__le__", "__eq__", "__ne__",
        "__gt__", "__ge__", "__add__", "__radd__", "__sub__", "__rsub__", "__mul__", "__rmul__",
        "__mod__", "__rmod__", "__divmod__", "__rdivmod__", "__pow__", "__rpow__", "__neg__",
        "__pos__", "__abs__", "__bool__", "__invert__", "__lshift__", "__rlshift__",
        "__rshift__", "__rrshift__", "__and__", "__rand__", "__xor__", "__rxor__", "__or__",
        "__ror__", "__int__", "__float__", "__floordiv__", "__rfloordiv__", "__truediv__",
        "__rtruediv__", "__index__"]),
     (.method, ["conjugate", "bit_length", "bit_count", "to_bytes"]),
     (.classMethod, ["from_bytes"]),
     (.method,
       ["as_integer_ratio", "__trunc__", "__floor__", "__ceil__", "__round__", "__getnewargs__",
        "__format__", "__sizeof__"]),
     (.derived, ["real", "imag", "numerator", "denominator"]),
     (.description, ["__doc__"])]
  | ownMethod =>
    [(.operator,
       ["__repr__", "__hash__", "__call__", "__getattribute__", "__lt__", "__le__", "__eq__",
        "__ne__", "__gt__", "__ge__"]),
     (.method, ["__reduce__"]),
     (.stored, ["__module__"]),
     (.derived, ["__doc__", "__name__", "__qualname__", "__self__", "__text_signature__"])]
  | ownOperator =>
    [(.operator,
       ["__repr__", "__hash__", "__call__", "__getattribute__", "__lt__", "__le__", "__eq__",
        "__ne__", "__gt__", "__ge__"]),
     (.method, ["__reduce__"]),
     (.stored, ["__self__"]),
     (.derived, ["__objclass__", "__name__", "__qualname__", "__doc__", "__text_signature__"])]
  | method =>
    [(.operator, ["__repr__", "__call__", "__getattribute__", "__get__"]),
     (.method, ["__reduce__"]),
     (.stored, ["__objclass__", "__name__"]),
     (.derived, ["__doc__", "__qualname__", "__text_signature__"])]
  | operator =>
    [(.operator, ["__repr__", "__call__", "__getattribute__", "__get__"]),
     (.method, ["__reduce__"]),
     (.stored, ["__objclass__", "__name__"]),
     (.derived, ["__doc__", "__qualname__", "__text_signature__"])]
  | classMethod =>
    [(.operator, ["__repr__", "__call__", "__getattribute__", "__get__"]),
     (.stored, ["__objclass__", "__name__"]),
     (.derived, ["__doc__", "__qualname__", "__text_signature__"])]
  | staticMethod =>
    [(.maker, ["__new__"]),
     (.operator, ["__repr__", "__call__", "__get__", "__init__"]),
     (.stored, ["__func__", "__wrapped__"]),
     (.derived, ["__isabstractmethod__", "__dict__"]),
     (.description, ["__doc__"])]
  | derived =>
    [(.operator, ["__repr__", "__getattribute__", "__get__", "__set__", "__delete__"]),
     (.stored, ["__objclass__", "__name__"]),
     (.derived, ["__doc__", "__qualname__"])]
  | stored =>
    [(.operator, ["__repr__", "__getattribute__", "__get__", "__set__", "__delete__"]),
     (.method, ["__reduce__"]),
     (.stored, ["__objclass__", "__name__"]),
     (.derived, ["__doc__", "__qualname__"])]
  | directory =>
    [(.maker, ["__new__"]),
     (.operator,
       ["__repr__", "__str__", "__getattribute__", "__lt__", "__le__", "__eq__", "__ne__",
        "__gt__", "__ge__", "__iter__", "__or__", "__ror__", "__ior__", "__len__", "__getitem__",
        "__contains__"]),
     (.method, ["get", "keys", "values", "items", "copy"]),
     (.classMethod, ["__class_getitem__"]),
     (.method, ["__reversed__"]),
     (.description, ["__doc__"]),
     (.absent, ["__hash__"])]
  | dictionary =>
    [(.maker, ["__new__"]),
     (.operator, ["__repr__"]),
     (.absent, ["__hash__"]),
     (.operator,
       ["__getattribute__", "__lt__", "__le__", "__eq__", "__ne__", "__gt__", "__ge__",
        "__iter__", "__init__", "__or__", "__ror__", "__ior__", "__len__"]),
     (.method, ["__getitem__"]),
     (.operator, ["__setitem__", "__delitem__"]),
     (.method,
       ["__contains__", "__sizeof__", "get", "setdefault", "pop", "popitem", "keys", "items",
        "values", "update"]),
     (.classMethod, ["fromkeys"]),
     (.method, ["clear", "copy", "__reversed__"]),
     (.classMethod, ["__class_getitem__"]),
     (.description, ["__doc__"])]
  | special =>
    [(.maker, ["__new__"]),
     (.operator,
       ["__repr__", "__hash__", "__call__", "__getattribute__", "__lt__", "__le__", "__eq__",
        "__ne__", "__gt__", "__ge__", "__iter__", "__or__", "__ror__", "__getitem__"]),
     (.method,
       ["__mro_entries__", "__instancecheck__", "__subclasscheck__", "__reduce__", "__dir__"]),
     (.stored, ["__origin__", "__args__", "__unpacked__"]),
     (.derived, ["__parameters__", "__typing_unpacked_tuple_args__"]),
     (.description, ["__doc__"])]

/-- What a class defines, in order. -/
def members (c : PartClass) : List (String × MemberKind) :=
  c.stretches.flatMap fun (kind, names) => names.map fun name => (name, kind)

/-- What a class defines under a name. -/
def member? (c : PartClass) (name : String) : Option MemberKind := c.members.lookup name

end PartClass

end Bindery.Template
