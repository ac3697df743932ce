import Determinization.Options.Argument

/-!
# Usage and help texts
-/

namespace Determinization
namespace Options

def programName : String := "nfa2dfa"

/-- The text that says how the program is called. -/
def usageText : String :=
  "usage: nfa2dfa [-h] [-o OUTPUT] [-w WORDS] [--table]\n"
    ++ "               [--log-level \x7bDEBUG,INFO,WARNING,ERROR\x7d]\n"
    ++ "               [input]\n"

/-- The text that explains every option. -/
def helpText : String :=
  usageText
    ++ "\n"
    ++ "построение dfa по nfa методом подмножеств\n"
    ++ "\n"
    ++ "positional arguments:\n"
    ++ "  input                 файл с описанием nfa\n"
    ++ "\n"
    ++ "options:\n"
    ++ "  -h, --help            show this help message and exit\n"
    ++ "  -o OUTPUT, --output OUTPUT\n"
    ++ "                        куда записать dfa\n"
    ++ "  -w WORDS, --word WORDS\n"
    ++ "                        слово для сверки nfa и dfa (можно несколько раз)\n"
    ++ "  --table               напечатать δ-таблицы nfa и dfa\n"
    ++ "  --log-level \x7bDEBUG,INFO,WARNING,ERROR\x7d\n"

def UsageError.report (e : UsageError) : String :=
  usageText ++ programName ++ ": error: " ++ e.message ++ "\n"

end Options
end Determinization
