import EntityLinking.Text.Utf8

/-!
# Reading files

A source of files gives the octets of a file by its path, or the reason why they cannot be had.
Data files are read as text.
-/

namespace EntityLinking

/-- The octets of a file, or the reason why it cannot be read. -/
abbrev FileReader := String → Except String (List UInt8)

/-- Why a file cannot be read. -/
inductive ReadFault where
  | absent
  | folder
  /-- The path goes on behind a file. -/
  | throughFile
  | notText
  /-- The path, or a name in it, is longer than any file's. -/
  | tooLong
  /-- The path contains the character NUL, which no path has. -/
  | noPath
deriving DecidableEq

def ReadFault.message : ReadFault → String
  | .absent => "No such file or directory (os error 2)"
  | .folder => "Is a directory (os error 21)"
  | .throughFile => "Not a directory (os error 20)"
  | .notText => "stream did not contain valid UTF-8"
  | .tooLong => "File name too long (os error 36)"
  | .noPath => "file name contained an unexpected NUL byte"

/-- The text of a file, or the reason why it cannot be read as one. -/
def FileReader.text (files : FileReader) (path : String) : Except String String := do
  match Text.decode? (← files path) with
  | some text => .ok text
  | none => .error ReadFault.notText.message

end EntityLinking
