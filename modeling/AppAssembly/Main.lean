import AppAssembly.CommandLine

/-!
# Program

Reads the file that the command line names, does what it asks for, and writes what comes of it.
-/

open AppAssembly CommandLine

def contentsOf (path : String) : IO FileContents := do
  try
    match String.fromUTF8? (← IO.FS.readBinFile path) with
    | some s => return .text s
    | none => return .notText
  catch _ => return .missing

def main (arguments : List String) : IO UInt32 := do
  let outcome ←
    match parse? arguments with
    | some invocation => do
        let contents ← (invocation.spec.map contentsOf).getD (pure .missing)
        pure (execute invocation contents)
    | none => pure usage
  (← IO.getStdout).putStr outcome.stdout
  (← IO.getStderr).putStr outcome.stderr
  return UInt32.ofNat outcome.status
