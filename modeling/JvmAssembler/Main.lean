import JvmAssembler.CommandLine

/-!
# The program
-/

open JvmAssembler

/-- Print the report for the arguments and the settings of the environment. -/
def main (args : List String) : IO UInt32 := do
  let names := [Config.debugCodeName, Config.narrowReinterpretationName,
    Config.implicitVoidReturnName, Config.maxCodeLengthName]
  let settings ← names.mapM fun name => return (name, ← IO.getEnv name)
  let report := CommandLine.run args fun name => (settings.lookup name).join
  IO.print report.stdout
  IO.eprint report.stderr
  return report.exitCode
