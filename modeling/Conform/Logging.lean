import Conform.Settings
import Conform.Source
import Conform.Text.Case

/-! Logging. Loggers have dotted names and form a tree under the root logger. The parent of a logger is the
nearest one that is in use among those whose names stand before the dots of its own. A logger whose level is
zero takes that of its parent, and a record goes to the handlers of its logger and of the parents up to the
first one that does not pass records on. Split logging gives a logger two handlers, which send the records
below a level to standard output and the others to standard error. They bear a mark, by which a later set-up
finds them; whatever other handlers a logger has stay. The library's own logger has one from the start, which
writes nothing.

The levels for split logging can be given by name. Names are looked up in upper case among the names that
the logging facility knows, of which two are no levels; such a name makes the set-up fail halfway. -/

namespace Conform.Logging

inductive Stream where
  | stdout
  | stderr
  deriving DecidableEq, Repr

/-- A handler writes the records from its level up to each of its maxima, if it has a stream. Those of split
logging are marked. -/
structure Handler where
  stream : Option Stream
  level : Int
  maxima : List Int
  isSplit : Bool := false
  deriving DecidableEq, Repr

def nullHandler : Handler := ⟨none, 0, [], false⟩

structure Logger where
  level : Int := 0
  propagate : Bool := true
  handlers : List Handler := []
  /-- Whether it took the records of a level, for the levels that came up since a level was last set. -/
  answers : List (Int × Bool) := []
  deriving DecidableEq, Repr

namespace Logger

/-- The handlers of split logging. -/
def own (l : Logger) : List Handler := l.handlers.filter (·.isSplit)

/-- The handlers of others. -/
def foreign (l : Logger) : List Handler := l.handlers.filter (!·.isSplit)

end Logger

/-- The loggers in use, in the order in which they came into use; any other one is as new. -/
abbrev Loggers := NameTable Logger

structure Record where
  logger : String
  level : Int
  message : String
  deriving DecidableEq, Repr

abbrev Output := List (Stream × String)

def debugLevel : Int := 10
def infoLevel : Int := 20
def warningLevel : Int := 30
def errorLevel : Int := 40
def criticalLevel : Int := 50

def rootName : String := "root"

def canonical (name : String) : String := if name.isEmpty then rootName else name

def setupName : String := "shapecheck"

def asNew (name : String) : Logger :=
  if name = rootName then { level := warningLevel }
  else if name = setupName then { handlers := [nullHandler] }
  else {}

/-- What stands before each dot of a name that is turned round, the longest first. A dot right before such
a dot is part of the name, and so is one at the front. -/
def stems : List Char → List (List Char)
  | '.' :: c :: cs => (c :: cs).reverse :: stems cs
  | _ :: cs => stems cs
  | [] => []

namespace Loggers

def get (ls : Loggers) (name : String) : Logger :=
  (ls.lookup name).getD (asNew name)

def isUsed (ls : Loggers) (name : String) : Bool := (ls.lookup name).isSome

/-- Whether a logger finds one by a stem of its name. One whose name begins the name of the root is found
by those only that came into use after it. -/
def finds (ls : Loggers) (name stem : String) : Bool :=
  let begun := stem.toList.isPrefixOf rootName.toList
  Loggers.isUsed (if begun then ls.takeWhile (·.1 ≠ name) else ls) stem

def parent (ls : Loggers) (name : String) : String :=
  (((stems name.toList.reverse).map String.ofList).find? (ls.finds name)).getD rootName

/-- A logger and its parents up to the root, if there are no more than so many. -/
def chainWithin (ls : Loggers) : Nat → String → List String
  | 0, _ => [rootName]
  | n + 1, name => if name = rootName then [rootName] else name :: ls.chainWithin n (ls.parent name)

/-- A logger and its parents up to the root. A parent has a shorter name. -/
def chain (ls : Loggers) (name : String) : List String := ls.chainWithin (name.length + 1) name

end Loggers

def effectiveLevel (ls : Loggers) (name : String) : Int :=
  (((ls.chain name).map fun n => (ls.get n).level).find? (· ≠ 0)).getD 0

/-- The part of a chain whose handlers see a record. -/
def reached (ls : Loggers) : List String → List Logger
  | [] => []
  | n :: ns =>
    let l := ls.get n
    l :: if l.propagate then reached ls ns else []

def Handler.takes (h : Handler) (level : Int) : Bool :=
  h.level ≤ level && h.maxima.all (level ≤ ·)

def levelName (n : Int) : String :=
  if n = 50 then "CRITICAL"
  else if n = 40 then "ERROR"
  else if n = 30 then "WARNING"
  else if n = 20 then "INFO"
  else if n = 10 then "DEBUG"
  else if n = 0 then "NOTSET"
  else "Level " ++ intString n

def Record.text (r : Record) : String :=
  r.logger ++ " - " ++ levelName r.level ++ " - " ++ r.message ++ "\n"

/-- Whether a logger takes a record. Until a level is set it stands by what it did for a level, also if it
has got another parent by now. -/
def isEnabled (ls : Loggers) (r : Record) : Bool :=
  ((ls.get r.logger).answers.lookup r.level).getD (0 < r.level && effectiveLevel ls r.logger ≤ r.level)

/-- The loggers after a record: its logger is in use. -/
def after (ls : Loggers) (r : Record) : Loggers :=
  let l := ls.get r.logger
  ls.put r.logger { l with answers := (r.level, isEnabled ls r) :: l.answers }

def Handler.write? (h : Handler) (r : Record) : Option (Stream × String) :=
  if h.takes r.level then h.stream.map (·, r.text) else none

def emit (ls : Loggers) (r : Record) : Output :=
  if isEnabled ls r then ((reached ls (ls.chain r.logger)).flatMap (·.handlers)).filterMap (·.write? r) else []

/-- The text that some records leave on a stream. -/
def Output.on (o : Output) (s : Stream) : String :=
  String.join ((o.filter (·.1 = s)).map (·.2))

def splitHandlers (stderrLevel : Int) : List Handler :=
  let bound := max stderrLevel debugLevel
  [⟨some .stdout, debugLevel, [bound - 1], true⟩, ⟨some .stderr, bound, [], true⟩]

/-- Sets up a logger with a level. -/
def configure (ls : Loggers) (name : String) (l : Logger) : Loggers :=
  (ls.put name l).map fun e => (e.1, { e.2 with answers := [] })

/-- Gives a logger its two handlers, in place of those of an earlier split. -/
def split (ls : Loggers) (name : String) (level stderrLevel : Int) : Loggers :=
  configure ls name {
    level := level
    propagate := false
    handlers := (ls.get name).foreign ++ splitHandlers stderrLevel }

/-- What a name in upper case stands for. -/
inductive Setting where
  | level (n : Int)
  | format (text : String)
  | styles
  deriving DecidableEq, Repr

def basicFormat : String := "%(levelname)s:%(name)s:%(message)s"

def Setting.ofName? (name : String) : Option Setting :=
  match name with
  | "CRITICAL" => some (.level 50)
  | "FATAL" => some (.level 50)
  | "ERROR" => some (.level 40)
  | "WARNING" => some (.level 30)
  | "WARN" => some (.level 30)
  | "INFO" => some (.level 20)
  | "DEBUG" => some (.level 10)
  | "NOTSET" => some (.level 0)
  | "BASIC_FORMAT" => some (.format basicFormat)
  | "_STYLES" => some .styles
  | _ => none

def Setting.find (name : String) (default : Int) : Setting :=
  (Setting.ofName? (String.ofList (Text.upper name.toList))).getD (.level default)

inductive SetupError where
  | unknownLevel (text : String)
  | notALevel
  | incomparable (typeName : String)
  deriving DecidableEq, Repr

def stylesLiteral : String :=
  "\x7b'%': (<class 'logging.PercentStyle'>, '%(levelname)s:%(name)s:%(message)s'), " ++
    "'\x7b': (<class 'logging.StrFormatStyle'>, '\x7blevelname\x7d:\x7bname\x7d:\x7bmessage\x7d'), " ++
    "'$': (<class 'logging.StringTemplateStyle'>, " ++
    "'$\x7blevelname\x7d:$\x7bname\x7d:$\x7bmessage\x7d')\x7d"

def SetupError.message : SetupError → String
  | unknownLevel t => "Unknown level: " ++ Text.quoted t
  | notALevel => "Level not an integer or a valid string: " ++ stylesLiteral
  | incomparable t => "'<' not supported between instances of '" ++ t ++ "' and 'int'"

/-- Split logging for the library's own logger, by the level names of the settings. The handlers of an earlier
split are gone in any case; the level and the end of propagation are set before the second level is looked at. -/
def setup (ls : Loggers) (c : Settings) : Loggers × Except SetupError Unit :=
  let bare := { ls.get setupName with handlers := (ls.get setupName).foreign }
  match Setting.find c.logLevel warningLevel with
  | .format t => (ls.put setupName bare, .error (.unknownLevel t))
  | .styles => (ls.put setupName bare, .error .notALevel)
  | .level n =>
    let half := { bare with level := n, propagate := false }
    match Setting.find c.printLevel errorLevel with
    | .level m => (split ls setupName n m, .ok ())
    | .format _ => (configure ls setupName half, .error (.incomparable "str"))
    | .styles => (configure ls setupName half, .error (.incomparable "dict"))

end Conform.Logging
