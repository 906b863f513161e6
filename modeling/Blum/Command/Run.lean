import Blum.Command.Benchmark
import Blum.Command.Options

/-! # Running a command line

From the arguments to everything that a run shows: how it ends, what it prints, what it logs
and what it has used of its source. The benchmark goes before the demonstration if both are
asked for, and without either of them the program prints its help. -/

namespace Blum.Command

def usage : String :=
  "usage: demo.py [-h] [--rabin] [--benchmark] [--bits BITS] [--ops OPS]\n"
    ++ "               [--verbose]\n"

def help : String :=
  usage
    ++ "\n"
    ++ "Rabin trapdoor permutation demo and benchmarks\n"
    ++ "\n"
    ++ "options:\n"
    ++ "  -h, --help   show this help message and exit\n"
    ++ "  --rabin      Run Rabin permutation demo\n"
    ++ "  --benchmark  Run benchmark\n"
    ++ s!"  --bits BITS  Modulus size (default: {defaultBits})\n"
    ++ s!"  --ops OPS    Operations to time (default: {defaultOps})\n"
    ++ "  --verbose    Show library debug logging\n"
    ++ "\n"
    ++ "Examples:\n"
    ++ "  python3 demo.py --rabin              # Demo\n"
    ++ "  python3 demo.py --benchmark          # Benchmark\n"
    ++ "  python3 demo.py --rabin --bits 2048  # Custom modulus size\n"
    ++ "        \n"

structure Report where
  /-- The exit code, or the fault that ended the run. -/
  ending : Except Fault Nat
  output : String
  errors : String
  source : Source

/-- The log as it is shown: one line for each record, and the debug records only on request. -/
def logLines (verbose : Bool) (log : List LogRecord) : String :=
  let shown := log.filter fun event => verbose || event.level ≠ .debug
  String.join (shown.map fun event => s!"{event.level.word}: {event.text}\n")

def perform [Machine] [Monad m] (now : m Float) (options : Options) : Script m Unit :=
  if options.benchmark then benchmark now options.bits options.ops
  else if options.rabin then demo now options.bits
  else Script.print help

def run [Machine] [Monad m] (now : m Float) (args : List String) (source : Source) : m Report := do
  match parse args with
  | .error .help => return { ending := .ok 0, output := help, errors := "", source }
  | .error (.misuse why) =>
    return {
      ending := .ok 2
      output := ""
      errors := usage ++ s!"demo.py: error: {why.message}\n"
      source }
  | .ok options =>
    let (result, session) ← (perform now options).run { workspace := { source } }
    return {
      ending := result.map fun _ => 0
      output := String.join session.printed
      errors := logLines options.verbose session.workspace.log.toList
      source := session.workspace.source }

end Blum.Command
