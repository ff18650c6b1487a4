import FilterLang.Command.Run

open FilterLang

def main (arguments : List String) : IO UInt32 := do
  let stdin ← IO.getStdin
  let waits := (Request.ofArguments? arguments).any Request.readsInput
  let input ←
    if waits && !(← stdin.isTty) then Input.bytes <$> stdin.readBinToEnd else pure Input.terminal
  let outcome := run arguments input
  IO.print outcome.stdout
  IO.eprint outcome.stderr
  return outcome.code.toUInt32
