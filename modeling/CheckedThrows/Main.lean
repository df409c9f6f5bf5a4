import CheckedThrows.CommandLine

/-!
# The program

Reads the files that the arguments name and prints what a run leaves behind.
-/

namespace CheckedThrows

def usageText : String :=
  "usage: throwlint [-h] [--json] [--disable CODE] [--intrinsics INTRINSICS] " ++
    "[--no-sdk-intrinsics] [-v] source [source ...]"

def directoryCode : UInt32 := 21

def faultOf : IO.Error → FileFault
  | .inappropriateType _ code _ => if code = directoryCode then .isDirectory else .notDirectory
  | .invalidArgument .. => .nameTooLong
  | _ => .missing

def readFile (path : FilePath) : IO (Except FileFault (List UInt8)) := do
  try
    let content ← IO.FS.readBinFile path.render
    return .ok content.toList
  catch e => return .error (faultOf e)

def readerOf (paths : List FilePath) : IO FileReader := do
  let contents ← paths.mapM fun path => do return (path, ← readFile path)
  return fun path => (contents.lookup path).getD (.error .missing)

def shown (t : Text) : String :=
  String.ofList (t.map fun p => (CodePoint.toChar? p).getD '?')

end CheckedThrows

open CheckedThrows in
def main (args : List String) : IO UInt32 := do
  match Options.ofArguments args with
  | .error refusal =>
    if refusal = .help then IO.println usageText else IO.eprintln usageText
    return refusal.exitCode.toUInt32
  | .ok options =>
    let reader ← readerOf (options.intrinsics.join.toList ++ options.sources)
    match options.run reader with
    | .ok outcome =>
      IO.print (shown outcome.stdout)
      IO.eprint (shown outcome.stderr)
      return outcome.exitCode.toUInt32
    | .error fault =>
      IO.eprintln fault.message
      return 1
