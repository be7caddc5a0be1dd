import BitcoinSpend.Tool.Respond

namespace BitcoinSpend

/-- The text of a file, if there is one that holds text. -/
def readText (path : String) : IO (Option String) :=
  try
    return some (← IO.FS.readFile path)
  catch _ => return none

/-- The file that a command line names. -/
def namedFile (args : List String) : Option String :=
  match Request.ofArguments? args with
  | some (.perform _ settings) => settings.cache
  | _ => none

end BitcoinSpend

open BitcoinSpend in
def main (args : List String) : IO UInt32 := do
  let text ←
    match namedFile args with
    | some path => readText path
    | none => pure none
  let response := Response.ofArguments args fun _ => text
  IO.print response.output
  match response.failure with
  | some e => IO.eprintln s!"error: {e.message?.getD Response.unreadable}"
  | none => if response.exitCode ≠ 0 then IO.eprint Response.helpText
  return response.exitCode.toUInt32
