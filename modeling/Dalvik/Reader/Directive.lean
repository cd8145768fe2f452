/-!
# Directives

The words that the reader dispatches on behind the dot of a directive. Hyphens and underscores are the
same here, and some statements that need no dot have a name of their own.
-/

namespace Dalvik

inductive Directive where
  | superClass | sourceFile | field | close | method | annot | subAnnot | enumConst | debug
  | value | parameter | number | line | registers | locals | label | catching | catchingAll
  | instruction | packedSwitch | arrayData | localVar | sparseSwitch | prologue | restart | directive
  deriving DecidableEq, Repr

namespace Directive

/-- The directives by their names, with underscores for hyphens. -/
def byName : List (String × Directive) :=
  [("super", superClass), ("source", sourceFile), ("field", field), ("end", close),
   ("method", method), ("annotation", annot), ("subannotation", subAnnot), ("enum", enumConst),
   ("debug", debug), ("value", value), ("param", parameter), ("method_int", number), ("line", line),
   ("registers", registers), ("locals", locals), ("block", label), ("catch", catching),
   ("catchall", catchingAll), ("instruction", instruction), ("packed_switch", packedSwitch),
   ("array_data", arrayData), ("local", localVar), ("sparse_switch", sparseSwitch),
   ("prologue", prologue), ("restart", restart), ("token", directive)]

def ofName? (name : String) : Option Directive :=
  byName.lookup (String.ofList (name.toList.map fun c => if c == '-' then '_' else c))

end Directive

end Dalvik
