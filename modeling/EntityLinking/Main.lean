import EntityLinking.CommandLine

/-!
# The program

The outer layer of the command line: it reads the arguments, the environment and the files, and
writes what a run gives.
-/

namespace EntityLinking
namespace Program

/-- The keys of the environment that every run looks at. -/
def environmentKeys : List String :=
  [Loading.settingsKey, Log.directivesKey, CommandLine.stylesKey, CommandLine.noStylesKey] ++
    Override.all.map Override.key

/-- The environment of the process, as far as some keys go. -/
def environment (keys : List String) : IO Environment := do
  let pairs ← keys.mapM fun key => do
    return (key, ← IO.getEnv key)
  return fun key => (pairs.lookup key).join

/-- The reason why a file could not be read. -/
def reason : IO.Error → String
  | .noFileOrDirectory _ _ _ => ReadFault.absent.message
  | .inappropriateType _ _ _ => ReadFault.throughFile.message
  | error => toString error

/-- The octets of a file, or why it cannot be read. -/
def readFile (path : String) : IO (Except String (List UInt8)) := do
  match ← (IO.FS.readBinFile path).toBaseIO with
  | .ok octets => return .ok octets.toList
  | .error error => return .error (reason error)

/-- Some files as a source of files. -/
def files (paths : List String) : IO FileReader := do
  let read ← paths.mapM fun path => do
    return (path, ← readFile path)
  return fun path => (read.lookup path).getD (.error ReadFault.absent.message)

/-- The keys of the environment that a run looks at. -/
def keys (early : FileReader) : List String :=
  match early CommandLine.environmentFile with
  | .ok octets => environmentKeys ++ EnvironmentFile.keysIn (Text.decodeLossy octets)
  | .error _ => environmentKeys

/-- The files that a run reads besides the one that fills up the environment. -/
def paths (arguments : List String) (env : Environment) (early : FileReader) : List String :=
  match (CommandLine.fillUp env early).map (CommandLine.Request.ofArguments · arguments) with
  | some (.ok request) =>
    request.settings.toList ++ [request.candidates, request.graph, request.mentions]
  | _ => []

/-- Carries out one run. -/
def run (arguments : List String) : IO UInt32 := do
  let early ← files [CommandLine.environmentFile]
  let env ← environment (keys early)
  let reader ← files (CommandLine.environmentFile :: paths arguments env early)
  let ending := CommandLine.run arguments env reader
  for remark in ending.remarks do
    IO.eprintln remark
  IO.print ending.output
  return UInt32.ofNat ending.exitCode

end Program
end EntityLinking

def main (arguments : List String) : IO UInt32 :=
  EntityLinking.Program.run arguments
