/-
# Courier.CommandLine.Outcome -- what a call leaves

A call ends with an exit code and with what it has written: the answer on one channel, complaints on
the other. Success is code zero, a failure is told in one line after the word `Error`, and a command
line that the program does not know has a code of its own.
-/
import Courier.CommandLine.Reader

namespace Courier.CommandLine

structure Outcome where
  code : Nat
  output : String := ""
  errors : String := ""
deriving DecidableEq, Repr

/-- Exit code for a command line that the program does not know. -/
def usageCode : Nat := 2

def Outcome.failure (message : String) : Outcome :=
  { code := 1, errors := "Error: " ++ message ++ "\n" }

/-- What a command line that is not carried out leaves. -/
def refused (usage : String) : Refusal → Outcome
  | .usage => { code := usageCode, errors := usage }
  | .help => { code := 0, output := usage }

end Courier.CommandLine
