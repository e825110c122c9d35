import ArrayCalc.Error

/-!
# Hosts

A session runs on a host: something that takes its output and its error messages, keeps its files
and supplies the standard input.  Everything else is computed without one.
-/

namespace ArrayCalc

class Host (m : Type → Type) where
  /-- Writes to the standard output. -/
  print : String → m Unit
  /-- Writes to the standard error output. -/
  report : String → m Unit
  /-- The bytes of a file as it is at the moment. -/
  readFile : String → m (Except FileError (List UInt8))
  /-- Makes a file or replaces its text. -/
  writeFile : String → String → m (Except FileError Unit)
  /-- All that is left of the standard input. -/
  readInput : m String
  /-- Whether the standard input is a terminal. -/
  isInteractive : m Bool

end ArrayCalc
