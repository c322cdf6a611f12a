/-!
# Classes of parts

Everything that a field of a template can lead to belongs to a class. Classes have a name, stem from
each other, and say what their members are and how much room they take.
-/

namespace Bindery.Template

/-- The classes that parts belong to. -/
inductive PartClass where
  /-- The class of everything. -/
  | anything
  /-- The class of texts. -/
  | text
  /-- The class of classes. -/
  | classes
  /-- The class of rows. -/
  | row
  /-- The class of what is absent. -/
  | nothing
  /-- The class of truth values. -/
  | truth
  /-- The class of whole numbers. -/
  | number
  /-- The class of methods of a certain part. -/
  | ownMethod
  /-- The class of operators of a certain part. -/
  | ownOperator
  /-- The class of methods of a class. -/
  | method
  /-- The class of operators of a class. -/
  | operator
  /-- The class of methods that belong to a class itself. -/
  | classMethod
  /-- The class of methods that belong to no one. -/
  | staticMethod
  /-- The class of attributes that are worked out. -/
  | derived
  /-- The class of attributes that are stored. -/
  | stored
  /-- The class of directories of classes. -/
  | directory
  /-- The class of dictionaries. -/
  | dictionary
  /-- The class of classes for certain members. -/
  | special
  deriving DecidableEq, Repr

namespace PartClass

/-- The name of a class. -/
def name : PartClass → String
  | anything => "object"
  | text => "str"
  | classes => "type"
  | row => "tuple"
  | nothing => "NoneType"
  | truth => "bool"
  | number => "int"
  | ownMethod => "builtin_function_or_method"
  | ownOperator => "method-wrapper"
  | method => "method_descriptor"
  | operator => "wrapper_descriptor"
  | classMethod => "classmethod_descriptor"
  | staticMethod => "staticmethod"
  | derived => "getset_descriptor"
  | stored => "member_descriptor"
  | directory => "mappingproxy"
  | dictionary => "dict"
  | special => "GenericAlias"

/-- The name of the collection that a class is kept in. -/
def home : PartClass → String
  | special => "types"
  | _ => "builtins"

/-- The name of a class with its collection in front, unless that is the usual one. -/
def fullName (c : PartClass) : String :=
  if c.home = "builtins" then c.name else c.home ++ "." ++ c.name

/-- The class that a class stems from; only one stems from none. -/
def parent? : PartClass → Option PartClass
  | anything => none
  | truth => some number
  | _ => some anything

/-- A class and those it stems from, the nearest first. -/
def lineage : PartClass → List PartClass
  | anything => [anything]
  | truth => [truth, number, anything]
  | c => [c, anything]

/-- What a class says about its members. -/
def description? : PartClass → Option String
  | anything =>
    some ("The base class of the class hierarchy.\n\nWhen called, it accepts no arguments and " ++
        "returns a new featureless\ninstance that has no instance attributes and cannot be " ++
        "given any.\n")
  | text =>
    some ("str(object='') -> str\nstr(bytes_or_buffer[, encoding[, errors]]) -> str\n" ++
        "\nCreate a new string object from the given object. If encoding or\n" ++
        "errors is specified, then the object must expose a data buffer\n" ++
        "that will be decoded using the given encoding and error handler.\n" ++
        "Otherwise, returns the result of object.__str__() (if defined)\n" ++
        "or repr(object).\nencoding defaults to sys.getdefaultencoding().\n" ++
        "errors defaults to 'strict'.")
  | classes =>
    some ("type(object) -> the object's type\ntype(name, bases, dict, **kwds) -> a new type")
  | row =>
    some ("Built-in immutable sequence.\n\nIf no argument is given, the constructor returns an " ++
        "empty tuple.\nIf iterable is specified the tuple is initialized from iterable's " ++
        "items.\n\nIf the argument is a tuple, the return value is the same object.")
  | truth =>
    some ("bool(x) -> bool\n\nReturns True when the argument x is true, False otherwise.\n" ++
        "The builtins True and False are the only two instances of the class bool.\n" ++
        "The class bool is a subclass of the class int, and cannot be subclassed.")
  | number =>
    some ("int([x]) -> integer\nint(x, base=10) -> integer\n" ++
        "\nConvert a number or string to an integer, or return 0 if no arguments\n" ++
        "are given.  If x is a number, return x.__int__().  For floating point\n" ++
        "numbers, this truncates towards zero.\n\nIf x is not a number or if base is given, " ++
        "then x must be a string,\nbytes, or bytearray instance representing an integer " ++
        "literal in the\ngiven base.  The literal can be preceded by '+' or '-' and be " ++
        "surrounded\nby whitespace.  The base defaults to 10.  Valid bases are 0 and 2-36.\n" ++
        "Base 0 means to interpret the base from the string as an integer literal.\n" ++
        ">>> int('0b100', base=0)\n4")
  | dictionary =>
    some ("dict() -> new empty dictionary\ndict(mapping) -> new dictionary initialized from a " ++
        "mapping object's\n    (key, value) pairs\ndict(iterable) -> new dictionary " ++
        "initialized as if via:\n    d = \x7b\x7d\n    for k, v in iterable:\n" ++
        "        d[k] = v\ndict(**kwargs) -> new dictionary initialized with the name=value " ++
        "pairs\n    in the keyword argument list.  For example:  dict(one=1, two=2)")
  | staticMethod =>
    some ("staticmethod(function) -> method\n\nConvert a function to be a static method.\n" ++
        "\nA static method does not receive an implicit first argument.\n" ++
        "To declare a static method, use this idiom:\n\n     class C:\n" ++
        "         @staticmethod\n         def f(arg1, arg2, argN):\n             ...\n" ++
        "\nIt can be called either on the class (e.g. C.f()) or on an instance\n" ++
        "(e.g. C().f()). Both the class and the instance are ignored, and\n" ++
        "neither is passed implicitly as the first argument to the method.\n" ++
        "\nStatic methods in Python are similar to those found in Java or C++.\n" ++
        "For a more advanced concept, see the classmethod builtin.")
  | special =>
    some ("Represent a PEP 585 generic type\n" ++
        "\nE.g. for t = list[int], t.__origin__ is list and t.__args__ is (int,).")
  | _ => none

/-- What the members of a class are made from, where it is told. -/
def making? : PartClass → Option String
  | anything => some "()"
  | row => some "(iterable=(), /)"
  | _ => none

/-- How much room the members of a class take: all of them, each item, where their own entries and
what watches them are, and a number of marks. -/
structure Room where
  /-- The room of a member. -/
  basic : Nat
  /-- The room of an item. -/
  item : Nat := 0
  /-- Where its entries are. -/
  entries : Nat := 0
  /-- Where what watches it is. -/
  watchers : Nat := 0
  /-- The marks. -/
  marks : Nat
  deriving DecidableEq, Repr

/-- How much room the members of a class take. -/
def room : PartClass → Room
  | anything => { basic := 16, marks := 529664 }
  | text => { basic := 80, marks := 273159424 }
  | classes => { basic := 904, item := 40, entries := 264, watchers := 368, marks := 2148031744 }
  | row => { basic := 24, item := 8, marks := 71849248 }
  | nothing => { basic := 16, marks := 528640 }
  | truth => { basic := 32, item := 4, marks := 21500160 }
  | number => { basic := 24, item := 4, marks := 21501184 }
  | ownMethod => { basic := 56, watchers := 40, marks := 547200 }
  | ownOperator => { basic := 32, marks := 545152 }
  | method => { basic := 56, marks := 678272 }
  | operator => { basic := 56, marks := 676224 }
  | classMethod => { basic := 56, marks := 545152 }
  | staticMethod => { basic := 32, entries := 24, marks := 546048 }
  | derived => { basic := 48, marks := 545152 }
  | stored => { basic := 48, marks := 545152 }
  | directory => { basic := 24, marks := 545088 }
  | dictionary => { basic := 48, marks := 541611328 }
  | special => { basic := 64, watchers := 40, marks := 548096 }

end PartClass

end Bindery.Template
