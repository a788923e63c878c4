import NormalAlgorithm.Display.Transcript
import NormalAlgorithm.Limits

/-!
# Usage

The texts that the command line gives about itself. The defaults named in the usage are those in
force.
-/

namespace NormalAlgorithm

/-- The name and version of the command. -/
def version : Text := "markov-rewrite 0.1.0".toList

/-- The usage, with the defaults of these limits and this window. Model of `help_text`. -/
def usageFor (limits : Limits) (window : Window) : Text :=
  version ++ "

Run a Markov-algorithm string rewriting program and print its snapshots.

Usage:
  markov-rewrite [OPTIONS] [--] <program...>
  markov-rewrite [OPTIONS] --input <program>

Program syntax:
  str <text>             Initial string (at most once).
  key=value              Rewrite the first occurrence of key with value.
  fin key=value          Same, then stop.
  chr / ord key=value    '%' slots capture decimal code points / characters.
  rep / for X=a,b        Clone rules whose key contains X, once per value.
  ';' or newline separates statements, '\\' escapes, '\\n' is a newline.

Options:
  -i, --input <text>         Program text. If omitted, reads remaining args
                             or stdin.
  --max-rules <n>            Rule ceiling. Default: ".toList ++ decimal limits.rules ++ "
  --max-meta-rules <n>       Meta-rule ceiling. Default: ".toList ++ decimal limits.directives ++ "
  --max-iterations <n>       Step ceiling. Default: ".toList ++ decimal limits.steps ++ "
  --max-string-size <n>      String ceiling in UTF-16 units. Default: ".toList ++
    decimal limits.units ++ "
  --head <n>                 Snapshots always shown from the start. Default: ".toList ++
    decimal window.head ++ "
  --tail <n>                 Snapshots always shown from the end. Default: ".toList ++
    decimal window.tail ++ "
  --render-budget <n>        UTF-16 units shown before eliding. Default: ".toList ++
    decimal window.budget ++ "
  --result-only              Print only the final string.
  --max-result-size <n>      Longest final string printed by --result-only.
                             Default: 1000
  -e, --escape               Print the input escaped for use inside a program.
  -o, --ord                  Print the input's code points in decimal.
  -x, --hex-ord              Print the input's code points in hexadecimal.
  --stats                    Print compilation statistics.
  --color                    Force ANSI color output.
  --no-color                 Disable ANSI color output.
  -h, --help                 Show this help message.
  -V, --version              Print version information.

Environment:
  MARKOV_DEBUG=1             Trace parsing, expansion and each step to stderr.

Exit codes:
  0  Success.
  1  The program failed (syntax error or limit exceeded).
  2  Invalid arguments or missing input.
".toList

/-- The usage of the command. -/
def usage : Text := usageFor .wide {}

end NormalAlgorithm
