import PinUart.Cli.Execute

/-! The program on the command line. -/
namespace PinUart

/-- Why the system refuses a file, in its own words. -/
def refusalText : IO.Error → String
  | .noFileOrDirectory _ code details => s!"{details} (os error {code})"
  | .permissionDenied _ code details => s!"{details} (os error {code})"
  | .inappropriateType _ code details => s!"{details} (os error {code})"
  | other => toString other

/-- What a file holds, or why that cannot be told. -/
def contentsOf (path : String) : IO (Except String (List UInt8)) := do
  try
    return .ok (← IO.FS.readBinFile path).toList
  catch refusal =>
    return .error (refusalText refusal)

end PinUart

/-- Runs the command that the arguments form. -/
def main (arguments : List String) : IO UInt32 := do
  match PinUart.Cli.Command.parse? arguments with
  | none =>
    IO.eprintln "error: the arguments do not form a command"
    return PinUart.Cli.misuseCode
  | some command =>
    let contents ← match command.path? with
      | none => pure (.ok [])
      | some path => PinUart.contentsOf path
    let outcome := command.execute contents
    IO.print outcome.text
    if let some failure := outcome.failure then
      for line in failure.report do
        IO.eprintln line
    return outcome.exitCode
