/-!
# Styles on a terminal

A terminal shows a text in a style between two control sequences: one that switches the style on,
and one that switches off whatever is on.
-/

namespace EntityLinking
namespace Terminal

inductive Style where
  | bold
  | dimmed
  | underlined
  | red
  | green
deriving DecidableEq

def Style.code : Style → Nat
  | .bold => 1
  | .dimmed => 2
  | .underlined => 4
  | .red => 31
  | .green => 32

/-- The control sequence that switches some styles on. -/
def switchOn (styles : List Style) : String :=
  "\x1b[" ++ ";".intercalate (styles.map fun style => toString style.code) ++ "m"

/-- The control sequence that switches all styles off. -/
def switchOff : String :=
  "\x1b[0m"

/-- A text in some styles.  Where the text itself switches all styles off, they
are switched on again. -/
def paint (styles : List Style) (text : String) : String :=
  switchOn styles ++ text.replace switchOff (switchOff ++ switchOn styles) ++ switchOff

end Terminal
end EntityLinking
