/-!
# Directive keywords

The words that may follow the dot of a directive, without the dot.
-/

namespace Dalvik

inductive Keyword where
  | annot | arrayData | catching | catchingAll | classDef | close | enumConst | field | implements
  | line | localVar | locals | method | packedSwitch | param | prologue | registers | restart | source
  | sparseSwitch | subAnnot | superClass | debug
  deriving DecidableEq, Repr, Inhabited

namespace Keyword

def text : Keyword → String
  | annot => "annotation"
  | arrayData => "array-data"
  | catching => "catch"
  | catchingAll => "catchall"
  | classDef => "class"
  | close => "end"
  | enumConst => "enum"
  | field => "field"
  | implements => "implements"
  | line => "line"
  | localVar => "local"
  | locals => "locals"
  | method => "method"
  | packedSwitch => "packed-switch"
  | param => "param"
  | prologue => "prologue"
  | registers => "registers"
  | restart => "restart"
  | source => "source"
  | sparseSwitch => "sparse-switch"
  | subAnnot => "subannotation"
  | superClass => "super"
  | debug => "debug"

def all : List Keyword :=
  [annot, arrayData, catching, catchingAll, classDef, close, enumConst, field, implements, line,
   localVar, locals, method, packedSwitch, param, prologue, registers, restart, source, sparseSwitch,
   subAnnot, superClass, debug]

def ofText? (s : String) : Option Keyword :=
  all.find? (·.text == s)

instance : ToString Keyword := ⟨text⟩

end Keyword

end Dalvik
