import KernelCore.Parameters
import KernelCore.Text.Blank
import KernelCore.Transition

/-!
# The boot command line

The command line is read word by word and decides one thing: whether threads are scheduled by
feedback. `-o` takes the next word as its argument; `mlfqs` and `mlfqs=value` stand alone. A
later word overrides an earlier one, and words that are not understood are passed over.
-/
namespace KernelCore.Boot

/-- What the command line decides. -/
structure Options where
  feedback : Bool
  deriving DecidableEq, Repr

/-- The key of the scheduling option. -/
def feedbackKey : String := "mlfqs"

/-- The part behind the first `=` of a word, if the part before it is the key. -/
def valueOf (key word : String) : Option String :=
  match word.toList.span (· ≠ '=') with
  | (_, []) => none
  | (before, _ :: value) => if before = key.toList then some (String.ofList value) else none

/-- The values that switch the option on or off; any other value is bad. -/
def switch (value : String) : Option Bool :=
  if value = "1" ∨ value = "on" ∨ value = "true" then some true
  else if value = "0" ∨ value = "off" ∨ value = "false" then some false
  else none

/-- The effect of a word that is no argument of `-o`. -/
def readWord (options : Options) (word : String) : Options × List LogRecord :=
  if word = feedbackKey then (⟨true⟩, [])
  else
    match valueOf feedbackKey word with
    | none => (options, [])
    | some value =>
      match switch value with
      | some on => (⟨on⟩, [])
      | none => (options, [⟨.warn, "cmdline: bad value for mlfqs: " ++ value⟩])

def readWords (options : Options) : List String → Options × List LogRecord
  | [] => (options, [])
  | [word] => if word = "-o" then (options, []) else readWord options word
  | word :: next :: rest =>
    if word = "-o" then
      readWords (if next = feedbackKey then ⟨true⟩ else options) rest
    else
      let (options', logged) := readWord options word
      let (final, more) := readWords options' (next :: rest)
      (final, logged ++ more)

/-- The options of a command line. One of blanks only stands for the default command line. -/
def parse (line : String) : Options × List LogRecord :=
  let given := Text.words line
  readWords ⟨feedbackByDefault⟩ (if given = [] then Text.words defaultCommandLine else given)

end KernelCore.Boot
