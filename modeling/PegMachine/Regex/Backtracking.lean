import PegMachine.Regex
import PegMachine.Regex.Bounds

/-!
# A library of regular expressions by backtracking

The reader and the search of the modules beside this one make up a library. It reads the usual
notation: characters and their escapes, sets, groups, references to groups, looks, anchors and
quantifiers of three kinds. It refuses what it does not read, such as named groups and switches in
the pattern. Programs are run with it; what is proved of runs is proved for every library.
-/

namespace PegMachine.Regex

instance backtracking : RegexLibrary where
  Compiled := Pattern
  compile flags pattern :=
    match Pattern.read flags pattern.toList with
    | .ok compiled => .ok compiled
    | .error error => .error (error.message pattern.toList)
  matchEnd? := Pattern.matchEnd?
  matchEnd?_bounds := Pattern.matchEnd?_bounds

end PegMachine.Regex
