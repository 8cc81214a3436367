import EntityLinking.Json.Printer
import EntityLinking.Resolution
import EntityLinking.Terminal.Style

/-!
# Reports

Results written for a reader, line by line, or as a JSON document.  Lines may be painted for a
terminal, which changes no word of them.
-/

namespace EntityLinking

namespace Mention

def toJson (m : Mention) : Json.Value :=
  .object [
    ("surface_form", .text m.surface),
    ("context", .text m.context),
    ("text_offset", .ofNat m.offset)]

end Mention

namespace Entity

def toJson (e : Entity) : Json.Value :=
  .object [
    ("uri", .text e.uri),
    ("support", .ofNat e.support),
    ("prior", .ofBinary64 e.prior)]

end Entity

namespace Resolution

def toJson (r : Resolution Binary64) : Json.Value :=
  .object [
    ("occurrence", r.mention.toJson),
    ("entity", r.entity.toJson),
    ("score", .ofBinary64 r.score)]

end Resolution

namespace Table

def toJson (t : Table Binary64) : Json.Value :=
  .object [("entries", .array (t.rows.map fun row =>
    .object [
      ("occurrence", row.mention.toJson),
      ("resolutions", .array (row.value.map Resolution.toJson))]))]

end Table

namespace Report

inductive Format where
  | text
  | json
deriving DecidableEq

/-- Lines, each with its end. -/
def lines (ls : List String) : String :=
  String.join (ls.map (· ++ "\n"))

/-- A text as it is, or in a style. -/
def inStyle (painted : Bool) (style : Terminal.Style) (text : String) : String :=
  if painted then Terminal.paint [style] text else text

/-- The lines of one mention: itself, and its resolutions or that there are none. -/
def mentionLines (painted : Bool) (mention : Mention) (resolutions : List (Resolution Binary64)) :
    List String :=
  inStyle painted .bold mention.text ::
    if resolutions.isEmpty then ["  " ++ inStyle painted .dimmed "(unresolved)"]
    else resolutions.map fun r =>
      "  " ++ r.score.toFixedText ++ "  " ++ inStyle painted .green r.entity.uri

/-- The line of a resolution. -/
def resolutionLine (painted : Bool) (r : Resolution Binary64) : String :=
  inStyle painted .bold r.mention.text ++ " -> " ++ inStyle painted .green r.entity.uri ++ " (" ++
    r.score.toFixedText ++ ")"

/-- The report of a table. -/
def table (format : Format) (painted : Bool) (t : Table Binary64) : String :=
  match format with
  | .text => lines (t.rows.flatMap fun row => mentionLines painted row.mention row.value)
  | .json => lines [t.toJson.pretty]

/-- The report of the best resolutions. -/
def best (format : Format) (painted : Bool) (rs : List (Resolution Binary64)) : String :=
  match format with
  | .text => lines (rs.map (resolutionLine painted))
  | .json => lines [(Json.Value.array (rs.map Resolution.toJson)).pretty]

end Report
end EntityLinking
