/-!
# YAML tokens

A YAML text is read as a sequence of tokens.  Block collections are told by indentation; their
beginnings and ends are tokens of their own, so what comes after no longer looks at columns.
-/

namespace EntityLinking
namespace Yaml

inductive Token where
  | documentStart
  | documentEnd
  | blockSequenceStart
  | blockMappingStart
  /-- The end of a block sequence or block mapping. -/
  | blockEnd
  | flowSequenceStart
  | flowSequenceEnd
  | flowMappingStart
  | flowMappingEnd
  /-- A hyphen before an item. -/
  | blockEntry
  /-- A comma between items. -/
  | flowEntry
  /-- What stands next is a key. -/
  | key
  /-- What stands next is the value of a key. -/
  | value
  | scalar (text : String) (plain : Bool)
deriving DecidableEq

end Yaml
end EntityLinking
