/-!
# Mentions

A mention is one occurrence of a surface form in a document.  Two mentions are the same when text
and offset agree; the context travels along and decides nothing.
-/

namespace EntityLinking

/-- One occurrence of a surface form. -/
structure Mention where
  /-- The text of the mention, as it stands in the document. -/
  surface : String
  /-- The offset of the mention in the document, in characters. -/
  offset : Nat
  context : String := ""
deriving DecidableEq

/-- What identifies a mention: its text and its offset. -/
structure Mention.Key where
  surface : String
  offset : Nat
deriving DecidableEq, Hashable

namespace Mention

def key (m : Mention) : Key :=
  ⟨m.surface, m.offset⟩

/-- The mention as text, such as `Paris@4`. -/
def text (m : Mention) : String :=
  m.surface ++ "@" ++ toString m.offset

end Mention
end EntityLinking
