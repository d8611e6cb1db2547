/-! # Options -/

namespace Ferrotype

/-- Options of the extraction. All four are reserved: they are accepted and change nothing. -/
structure ExtractOptions where
  embedStructs : Bool := false
  followStructs : Bool := false
  noAnonStructs : Bool := false
  sortAlphabetically : Bool := false
  deriving Repr, DecidableEq

namespace ExtractOptions

/-- Every flag with its published name, in order. -/
def flags (o : ExtractOptions) : List (String × Bool) :=
  [("embed_structs", o.embedStructs), ("follow_structs", o.followStructs),
    ("no_anon_structs", o.noAnonStructs), ("sort_alphabetically", o.sortAlphabetically)]

def flagsSet (o : ExtractOptions) : List String := (o.flags.filter (·.2)).map (·.1)

end ExtractOptions

/-- The text before the declarations, unless another is asked for. -/
def defaultPreamble : String := "// generated using bel\n// DO NOT MODIFY"

structure RenderOptions where
  namespaceName : Option String := none
  preamble : Option String := some defaultPreamble
  sumTypes : Bool := false
  sortAlphabetically : Bool := false
  deriving Repr, DecidableEq

structure Options where
  extract : ExtractOptions := {}
  render : RenderOptions := {}
  deriving Repr, DecidableEq

end Ferrotype
