/-
# Help

What the program prints about itself.
-/

import Searcher.CommandLine.Arguments

namespace Searcher
namespace HelpTopic

/-- The lines about a command. -/
def lines : HelpTopic → List String
  | program =>
    ["BSC arbitrage and sandwich engine",
     "",
     "Usage: mev-engine [COMMAND]",
     "",
     "Commands:",
     "  run    Stream pending transactions and evaluate them (default)",
     "  trace  Trace a mined transaction and print its swaps",
     "  quote  Offline constant-product quote",
     "  help   Print this message or the help of the given subcommand(s)",
     "",
     "Options:",
     "  -h, --help  Print help"]
  | run =>
    ["Stream pending transactions and evaluate them (default)",
     "",
     "Usage: mev-engine run [OPTIONS]",
     "",
     "Options:",
     "      --strategy <STRATEGY>  Attack the workers search for [default: arbitrage] " ++
       "[possible values: arbitrage, sandwich]",
     "  -h, --help                 Print help"]
  | trace =>
    ["Trace a mined transaction and print its swaps",
     "",
     "Usage: mev-engine trace <HASH>",
     "",
     "Arguments:",
     "  <HASH>  Transaction hash",
     "",
     "Options:",
     "  -h, --help  Print help"]
  | quote =>
    ["Offline constant-product quote",
     "",
     "Usage: mev-engine quote [OPTIONS] --amount-in <AMOUNT_IN> --reserve-in <RESERVE_IN> " ++
       "--reserve-out <RESERVE_OUT>",
     "",
     "Options:",
     "      --amount-in <AMOUNT_IN>      ",
     "      --reserve-in <RESERVE_IN>    ",
     "      --reserve-out <RESERVE_OUT>  ",
     "      --fee-n <FEE_N>              Fee denominator [default: 1000]",
     "      --fee-s <FEE_S>              Fee numerator taken by the pool [default: 3]",
     "  -h, --help                       Print help"]
  | help =>
    ["Print this message or the help of the given subcommand(s)",
     "",
     "Usage: mev-engine help [COMMAND]",
     "",
     "Commands:",
     "  run    Stream pending transactions and evaluate them (default)",
     "  trace  Trace a mined transaction and print its swaps",
     "  quote  Offline constant-product quote",
     "  help   Print this message or the help of the given subcommand(s)"]

/-- The text about a command. -/
def text (topic : HelpTopic) : String := String.join (topic.lines.map (· ++ "\n"))

end HelpTopic
end Searcher
