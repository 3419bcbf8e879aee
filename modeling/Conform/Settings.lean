import Conform.Number.Misread

/-! Settings that every validation shares: how deep a schema may nest, how wide a value is shown in
messages, and the names of the levels for logging. They can come from environment variables, of which an
absent one leaves its default. -/

namespace Conform

structure Settings where
  depthLimit : Int := 100
  reprLimit : Int := 80
  logLevel : String := "WARNING"
  printLevel : String := "ERROR"
  deriving DecidableEq, Repr

namespace Settings

def readLimit (text : Option String) (default : Int) : Except Number.Misread Int :=
  match text with
  | some s => Number.readInteger 10 s.toList
  | none => .ok default

def ofEnvironment (lookup : String → Option String) : Except Number.Misread Settings := do
  let base : Settings := {}
  let depth ← readLimit (lookup "SHAPECHECK_DEPTH_LIMIT") base.depthLimit
  let width ← readLimit (lookup "SHAPECHECK_REPR_LIMIT") base.reprLimit
  return {
    depthLimit := depth
    reprLimit := width
    logLevel := (lookup "SHAPECHECK_LOG_LEVEL").getD base.logLevel
    printLevel := (lookup "SHAPECHECK_PRINT_LEVEL").getD base.printLevel }

end Settings

end Conform
