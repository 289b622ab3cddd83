/-
  This file defines the options that passes read. There is
  one: how generated code manages the lifetimes of objects.

  Key definitions include:
    * `MemoryManagement`
    * `Options`
    * `Options.useArc`
    * `Options.merge`
-/

namespace Lowering

/-
  How generated code manages object lifetimes: by explicit
  retain and release, where a retained result is asked for at
  each expression, or automatically, where every created array
  is a retained result.
-/
inductive MemoryManagement
  | referenceCounting
  | arc
  deriving DecidableEq, Inhabited, Repr

/- The spelling of a mode. -/
def MemoryManagement.label : MemoryManagement → String
  | referenceCounting => "ReferenceCounting"
  | arc => "Arc"

/- The options of one run. -/
structure Options where
  memoryManagement : MemoryManagement := .referenceCounting
  deriving DecidableEq, Inhabited, Repr

namespace Options

/- Choose the memory management. -/
def withMemoryManagement
    (options : Options)
    (mode : MemoryManagement) : Options :=
  { options with memoryManagement := mode }

/- Whether lifetimes are managed automatically. -/
def useArc (options : Options) : Bool :=
  options.memoryManagement = .arc

/- Combine two option sets; automatic management wins. -/
def merge (options other : Options) : Options :=
  if other.useArc then
    options.withMemoryManagement .arc
  else
    options

end Options

end Lowering
