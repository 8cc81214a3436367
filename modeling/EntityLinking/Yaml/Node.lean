import EntityLinking.Yaml.Token.Lexer

/-!
# YAML nodes

A document is a tree of scalars, sequences and mappings.  It is put together from the tokens of a
text, taken in one after the other, by a stack of frames that says what is open and what may come
next.  Where a node is left out, an empty plain scalar stands for it.
-/

namespace EntityLinking
namespace Yaml

/-- A node of a document.  Keys of a mapping may be any nodes and may repeat. -/
inductive Node where
  | scalar (text : String) (plain : Bool)
  | sequence (items : List Node)
  | mapping (members : List (Node × Node))

namespace Node

/-- What stands for a node that is left out. -/
def absent : Node :=
  scalar "" true

instance : Inhabited Node := ⟨absent⟩

end Node

/-- A mapping's members, last one first. -/
abbrev Members := List (Node × Node)

/-- A part of a document of which the end has not been read.  Items and members are kept last one
first. -/
inductive Frame where
  /-- Nothing has been read. -/
  | opening
  /-- The marker at the beginning of the document has been read. -/
  | content
  /-- The document is complete. -/
  | complete (document : Node)
  /-- A block sequence, before an item or its end. -/
  | blockSequence (items : List Node)
  /-- A block sequence, behind a hyphen. -/
  | blockItem (items : List Node)
  /-- A sequence in the column of the key it belongs to, behind an item. -/
  | flushSequence (items : List Node)
  /-- Such a sequence, behind a hyphen. -/
  | flushItem (items : List Node)
  /-- A block mapping, before a key or its end. -/
  | blockMapping (members : Members)
  /-- A block mapping, where a key is announced. -/
  | blockKey (members : Members)
  /-- A block mapping, behind a key. -/
  | blockColon (members : Members) (key : Node)
  /-- A block mapping, behind a colon. -/
  | blockValue (members : Members) (key : Node)
  /-- A sequence in brackets, behind an item. -/
  | flowSequence (items : List Node)
  /-- A sequence in brackets, behind the bracket or a comma. -/
  | flowItem (items : List Node)
  /-- An item that is a key with its value, where the key is announced. -/
  | pairKey (items : List Node)
  /-- Such an item, behind the key. -/
  | pairColon (items : List Node) (key : Node)
  /-- Such an item, behind the colon. -/
  | pairValue (items : List Node) (key : Node)
  /-- A mapping in braces, behind a member. -/
  | flowMapping (members : Members)
  /-- A mapping in braces, behind the brace or a comma. -/
  | flowMember (members : Members)
  /-- A mapping in braces, where a key is announced. -/
  | flowKey (members : Members)
  /-- A mapping in braces, behind a key. -/
  | flowColon (members : Members) (key : Node)
  /-- A mapping in braces, behind a colon. -/
  | flowValue (members : Members) (key : Node)

abbrev Composition := List Frame

/-- Whether a token shows that a node of a block mapping is left out. -/
def Token.omitsBlockNode : Token → Bool
  | .key | .value | .blockEnd => true
  | _ => false

/-- Whether a token shows that a node within square brackets is left out. -/
def Token.omitsItem : Token → Bool
  | .flowEntry | .flowSequenceEnd => true
  | _ => false

/-- Whether a token shows that a node within braces is left out. -/
def Token.omitsMember : Token → Bool
  | .flowEntry | .flowMappingEnd => true
  | _ => false

namespace Composition

/-- Puts a complete node where it belongs. -/
def deliver (n : Node) : List Frame → Option Composition
  | .opening :: stack => some (.complete n :: stack)
  | .content :: stack => some (.complete n :: stack)
  | .blockItem items :: stack => some (.blockSequence (n :: items) :: stack)
  | .flushItem items :: stack => some (.flushSequence (n :: items) :: stack)
  | .blockKey members :: stack => some (.blockColon members n :: stack)
  | .blockValue members key :: stack => some (.blockMapping ((key, n) :: members) :: stack)
  | .flowItem items :: stack => some (.flowSequence (n :: items) :: stack)
  | .pairKey items :: stack => some (.pairColon items n :: stack)
  | .pairValue items key :: stack =>
    some (.flowSequence (.mapping [(key, n)] :: items) :: stack)
  | .flowMember members :: stack => some (.flowMapping ((n, .absent) :: members) :: stack)
  | .flowKey members :: stack => some (.flowColon members n :: stack)
  | .flowValue members key :: stack => some (.flowMapping ((key, n) :: members) :: stack)
  | _ => none

def deliverSequence (items : List Node) (stack : List Frame) : Option Composition :=
  deliver (.sequence items.reverse) stack

def deliverMapping (members : Members) (stack : List Frame) : Option Composition :=
  deliver (.mapping members.reverse) stack

/-- Begins a node. -/
def beginNode (stack : List Frame) : Token → Option Composition
  | .scalar text plain => deliver (.scalar text plain) stack
  | .blockSequenceStart => some (.blockSequence [] :: stack)
  | .blockMappingStart => some (.blockMapping [] :: stack)
  | .flowSequenceStart => some (.flowItem [] :: stack)
  | .flowMappingStart => some (.flowMember [] :: stack)
  | _ => none

/-- Goes on in a block sequence before an item. -/
def inBlockSequence (items : List Node) (stack : List Frame) : Token → Option Composition
  | .blockEntry => some (.blockItem items :: stack)
  | .blockEnd => deliverSequence items stack
  | _ => none

/-- Goes on in a block mapping before a key. -/
def inBlockMapping (members : Members) (stack : List Frame) : Token → Option Composition
  | .key => some (.blockKey members :: stack)
  | .blockEnd => deliverMapping members stack
  | _ => none

/-- Goes on in a block mapping behind a key. -/
def afterBlockKey (members : Members) (key : Node) (stack : List Frame) :
    Token → Option Composition
  | .value => some (.blockValue members key :: stack)
  | t => inBlockMapping ((key, .absent) :: members) stack t

/-- Begins a node of a block mapping; a sequence may stand in the column of its key. -/
def beginBlockNode (stack : List Frame) : Token → Option Composition
  | .blockEntry => some (.flushItem [] :: stack)
  | t => beginNode stack t

/-- Ends a sequence in the column of its key at a token that belongs to the mapping around it. -/
def endFlushSequence (items : List Node) (t : Token) : List Frame → Option Composition
  | .blockKey members :: stack => afterBlockKey members (.sequence items.reverse) stack t
  | .blockValue members key :: stack =>
    inBlockMapping ((key, .sequence items.reverse) :: members) stack t
  | _ => none

/-- Goes on in a sequence in brackets behind an item. -/
def afterFlowItem (items : List Node) (stack : List Frame) : Token → Option Composition
  | .flowEntry => some (.flowItem items :: stack)
  | .flowSequenceEnd => deliverSequence items stack
  | _ => none

/-- Goes on in a mapping in braces behind a member. -/
def afterFlowMember (members : Members) (stack : List Frame) : Token → Option Composition
  | .flowEntry => some (.flowMember members :: stack)
  | .flowMappingEnd => deliverMapping members stack
  | _ => none

/-- Goes on in a mapping in braces behind a key. -/
def afterFlowKey (members : Members) (key : Node) (stack : List Frame) :
    Token → Option Composition
  | .value => some (.flowValue members key :: stack)
  | t => afterFlowMember ((key, .absent) :: members) stack t

def step : Composition → Token → Option Composition
  | .opening :: stack, t =>
    if t = .documentStart then some (.content :: stack) else beginNode (.opening :: stack) t
  | .content :: stack, t =>
    if t = .documentEnd then some (.complete .absent :: stack)
    else beginNode (.content :: stack) t
  | .complete document :: stack, t =>
    if t = .documentEnd then some (.complete document :: stack) else none
  | .blockSequence items :: stack, t => inBlockSequence items stack t
  | .blockItem items :: stack, t =>
    if t = .blockEntry ∨ t = .blockEnd then inBlockSequence (.absent :: items) stack t
    else beginNode (.blockItem items :: stack) t
  | .flushSequence items :: stack, t =>
    if t = .blockEntry then some (.flushItem items :: stack) else endFlushSequence items t stack
  | .flushItem items :: stack, t =>
    if t = .blockEntry then some (.flushItem (.absent :: items) :: stack)
    else if t.omitsBlockNode then endFlushSequence (.absent :: items) t stack
    else beginNode (.flushItem items :: stack) t
  | .blockMapping members :: stack, t => inBlockMapping members stack t
  | .blockKey members :: stack, t =>
    if t.omitsBlockNode then afterBlockKey members .absent stack t
    else beginBlockNode (.blockKey members :: stack) t
  | .blockColon members key :: stack, t => afterBlockKey members key stack t
  | .blockValue members key :: stack, t =>
    if t.omitsBlockNode then inBlockMapping ((key, .absent) :: members) stack t
    else beginBlockNode (.blockValue members key :: stack) t
  | .flowSequence items :: stack, t => afterFlowItem items stack t
  | .flowItem items :: stack, t =>
    if t = .key then some (.pairKey items :: stack)
    else if t = .flowSequenceEnd then deliverSequence items stack
    else beginNode (.flowItem items :: stack) t
  | .pairKey items :: stack, t =>
    if t = .value ∨ t.omitsItem then some (.pairColon items .absent :: stack)
    else beginNode (.pairKey items :: stack) t
  | .pairColon items key :: stack, t =>
    if t = .value then some (.pairValue items key :: stack)
    else afterFlowItem (.mapping [(key, .absent)] :: items) stack t
  | .pairValue items key :: stack, t =>
    if t.omitsItem then afterFlowItem (.mapping [(key, .absent)] :: items) stack t
    else beginNode (.pairValue items key :: stack) t
  | .flowMapping members :: stack, t => afterFlowMember members stack t
  | .flowMember members :: stack, t =>
    if t = .key then some (.flowKey members :: stack)
    else if t = .flowMappingEnd then deliverMapping members stack
    else beginNode (.flowMember members :: stack) t
  | .flowKey members :: stack, t =>
    if t = .value ∨ t.omitsMember then afterFlowKey members .absent stack t
    else beginNode (.flowKey members :: stack) t
  | .flowColon members key :: stack, t => afterFlowKey members key stack t
  | .flowValue members key :: stack, t =>
    if t.omitsMember then afterFlowMember ((key, .absent) :: members) stack t
    else beginNode (.flowValue members key :: stack) t
  | [], _ => none

def document? : Composition → Option Node
  | [.opening] => some .absent
  | [.content] => some .absent
  | [.complete document] => some document
  | _ => none

end Composition

namespace Node

def ofTokens? (ts : List Token) : Option Node :=
  (ts.foldlM Composition.step [.opening]).bind Composition.document?

/-- The document that a text writes.  A text without any is an empty scalar. -/
def read? (s : String) : Option Node :=
  (Token.ofText? s.toList).bind ofTokens?

end Node
end Yaml
end EntityLinking
