import Conform.Proofs.Logging.Runs

/-! Set-ups by the names of levels. A name that the logging facility does not know asks for the default, and one
of a level for that level. Two names it knows are of something else, and with one of these a set-up fails. By
then it has changed the logger: the handlers of its earlier split logging are gone, and if the first name was of
a level, that level is set and records are not passed on any more. So a set-up after one that completed leaves
the logger mute if it fails, but for handlers of others. -/

namespace Conform.Logging

def upperName (name : String) : String := String.ofList (Text.upper name.toList)

def levelNames : List (String × Int) :=
  [("CRITICAL", criticalLevel), ("FATAL", criticalLevel), ("ERROR", errorLevel), ("WARNING", warningLevel),
    ("WARN", warningLevel), ("INFO", infoLevel), ("DEBUG", debugLevel), ("NOTSET", 0)]

/-- The level that a name asks for, the default if it is not the name of one. -/
def levelOf (name : String) (default : Int) : Int := (levelNames.lookup (upperName name)).getD default

/-- Whether the logging facility knows a name as that of something else than a level. -/
def IsMisnomer (name : String) : Prop := upperName name = "BASIC_FORMAT" ∨ upperName name = "_STYLES"

instance (name : String) : Decidable (IsMisnomer name) :=
  inferInstanceAs (Decidable (upperName name = "BASIC_FORMAT" ∨ upperName name = "_STYLES"))

/-- What is wrong with a misnomer for the level of a logger. -/
def levelError (name : String) : SetupError :=
  if upperName name = "BASIC_FORMAT" then .unknownLevel basicFormat else .notALevel

/-- What is wrong with a misnomer for the level that parts the streams. -/
def boundError (name : String) : SetupError :=
  .incomparable (if upperName name = "BASIC_FORMAT" then "str" else "dict")

/-! What names stand for. -/

theorem ofName?_eq (name : String) (hf : name ≠ "BASIC_FORMAT") (hs : name ≠ "_STYLES") :
    Setting.ofName? name = (levelNames.lookup name).map .level := by
  unfold Setting.ofName?
  split
  any_goals rfl
  · contradiction
  · contradiction
  · have : levelNames.lookup name = none := by
      simp only [List.lookup_eq_none_iff, bne_iff_ne, levelNames, List.forall_mem_cons]
      refine ⟨‹_›, ‹_›, ‹_›, ‹_›, ‹_›, ‹_›, ‹_›, ‹_›, List.forall_mem_nil _⟩
    rw [this, Option.map_none]

theorem find_of_not_isMisnomer {name : String} (h : ¬ IsMisnomer name) (default : Int) :
    Setting.find name default = .level (levelOf name default) := by
  obtain ⟨hf, hs⟩ := not_or.1 h
  rw [Setting.find, levelOf]
  change (Setting.ofName? (upperName name)).getD _ = _
  rw [ofName?_eq _ hf hs]
  cases levelNames.lookup (upperName name) <;> rfl

theorem find_of_isMisnomer {name : String} (h : IsMisnomer name) (default : Int) :
    Setting.find name default = if upperName name = "BASIC_FORMAT" then .format basicFormat else .styles := by
  change (Setting.ofName? (upperName name)).getD _ = _
  rcases h with hf | hs
  · rw [hf]
    rfl
  · rw [hs]
    rfl

/-! What a set-up does to the loggers. -/

section Setup

variable {s : Settings} (ls : Loggers)

theorem setup_of_levels (hl : ¬ IsMisnomer s.logLevel) (hp : ¬ IsMisnomer s.printLevel) :
    setup ls s =
      (split ls setupName (levelOf s.logLevel warningLevel) (levelOf s.printLevel errorLevel), .ok ()) := by
  simp only [setup, find_of_not_isMisnomer hl, find_of_not_isMisnomer hp]

theorem setup_of_isMisnomer_logLevel (hl : IsMisnomer s.logLevel) :
    setup ls s =
      (ls.put setupName { ls.get setupName with handlers := (ls.get setupName).foreign },
        .error (levelError s.logLevel)) := by
  simp only [setup, find_of_isMisnomer hl, levelError]
  by_cases hf : upperName s.logLevel = "BASIC_FORMAT" <;> simp only [hf, if_true, if_false]

theorem setup_of_isMisnomer_printLevel (hl : ¬ IsMisnomer s.logLevel) (hp : IsMisnomer s.printLevel) :
    setup ls s =
      (configure ls setupName
          { ls.get setupName with
            level := levelOf s.logLevel warningLevel
            propagate := false
            handlers := (ls.get setupName).foreign },
        .error (boundError s.printLevel)) := by
  simp only [setup, find_of_not_isMisnomer hl, find_of_isMisnomer hp, boundError]
  by_cases hf : upperName s.printLevel = "BASIC_FORMAT" <;> simp only [hf, if_true, if_false]

theorem setup_eq_ok_iff :
    (setup ls s).2 = .ok () ↔ ¬ IsMisnomer s.logLevel ∧ ¬ IsMisnomer s.printLevel := by
  by_cases hl : IsMisnomer s.logLevel
  · simp [setup_of_isMisnomer_logLevel ls hl, hl]
  · by_cases hp : IsMisnomer s.printLevel
    · simp [setup_of_isMisnomer_printLevel ls hl hp, hp]
    · simp [setup_of_levels ls hl hp, hl, hp]

theorem get_setup_of_levels (hl : ¬ IsMisnomer s.logLevel) (hp : ¬ IsMisnomer s.printLevel) :
    (setup ls s).1.get setupName =
      { level := levelOf s.logLevel warningLevel
        propagate := false
        handlers := (ls.get setupName).foreign ++ splitHandlers (levelOf s.printLevel errorLevel) } := by
  rw [setup_of_levels ls hl hp, split, Loggers.get_configure, if_pos rfl, Logger.cleared]

theorem own_get_setup_of_levels (hl : ¬ IsMisnomer s.logLevel) (hp : ¬ IsMisnomer s.printLevel) :
    ((setup ls s).1.get setupName).own = splitHandlers (levelOf s.printLevel errorLevel) := by
  rw [Logger.own, get_setup_of_levels ls hl hp]
  exact own_append_splitHandlers (own_foreign _) _

theorem get_setup_of_isMisnomer_logLevel (hl : IsMisnomer s.logLevel) :
    (setup ls s).1.get setupName = { ls.get setupName with handlers := (ls.get setupName).foreign } := by
  rw [setup_of_isMisnomer_logLevel ls hl, Loggers.get_put, if_pos rfl]

theorem get_setup_of_isMisnomer_printLevel (hl : ¬ IsMisnomer s.logLevel) (hp : IsMisnomer s.printLevel) :
    (setup ls s).1.get setupName =
      { level := levelOf s.logLevel warningLevel
        propagate := false
        handlers := (ls.get setupName).foreign } := by
  rw [setup_of_isMisnomer_printLevel ls hl hp, Loggers.get_configure, if_pos rfl, Logger.cleared]

theorem Logger.cleared_eq_iff (l l' : Logger) :
    l.cleared = l'.cleared ↔ l.level = l'.level ∧ l.propagate = l'.propagate ∧ l.handlers = l'.handlers := by
  simp [Logger.cleared]

/-- No set-up touches another logger, but for what it took. -/
theorem cleared_get_setup {other : String} (h : other ≠ setupName) :
    ((setup ls s).1.get other).cleared = (ls.get other).cleared := by
  by_cases hl : IsMisnomer s.logLevel
  · rw [setup_of_isMisnomer_logLevel ls hl, Loggers.get_put, if_neg h]
  · by_cases hp : IsMisnomer s.printLevel
    · rw [setup_of_isMisnomer_printLevel ls hl hp, Loggers.get_configure, if_neg h]
      rfl
    · rw [setup_of_levels ls hl hp, split, Loggers.get_configure, if_neg h]
      rfl

/-- A set-up that fails does so at the first misnomer. -/
theorem isMisnomer_of_setup_ne_ok (h : (setup ls s).2 ≠ .ok ()) :
    IsMisnomer s.logLevel ∨ ¬ IsMisnomer s.logLevel ∧ IsMisnomer s.printLevel := by
  by_cases hl : IsMisnomer s.logLevel
  · exact .inl hl
  · refine .inr ⟨hl, ?_⟩
    by_contra hp
    exact h ((setup_eq_ok_iff ls).2 ⟨hl, hp⟩)

theorem handlers_setup_of_ne_ok (h : (setup ls s).2 ≠ .ok ()) :
    ((setup ls s).1.get setupName).handlers = (ls.get setupName).foreign := by
  obtain hl | ⟨hl, hp⟩ := isMisnomer_of_setup_ne_ok ls h
  · rw [get_setup_of_isMisnomer_logLevel ls hl]
  · rw [get_setup_of_isMisnomer_printLevel ls hl hp]

theorem propagate_setup_of_ne_ok (h : (setup ls s).2 ≠ .ok ())
    (hn : (ls.get setupName).propagate = false) : ((setup ls s).1.get setupName).propagate = false := by
  obtain hl | ⟨hl, hp⟩ := isMisnomer_of_setup_ne_ok ls h
  · rw [get_setup_of_isMisnomer_logLevel ls hl, hn]
  · rw [get_setup_of_isMisnomer_printLevel ls hl hp]

theorem Logger.foreign_eq_handlers_iff (l : Logger) : l.foreign = l.handlers ↔ l.own = [] := by
  rw [foreign, own, List.filter_eq_self, List.filter_eq_nil_iff]
  simp

/-- A set-up that fails leaves all as it was only where the earlier logger was like what it leaves. -/
theorem cleared_get_setup_iff (h : (setup ls s).2 ≠ .ok ()) :
    ((setup ls s).1.get setupName).cleared = (ls.get setupName).cleared ↔
      (ls.get setupName).own = [] ∧
        (¬ IsMisnomer s.logLevel →
          (ls.get setupName).level = levelOf s.logLevel warningLevel ∧
            (ls.get setupName).propagate = false) := by
  rw [Logger.cleared_eq_iff, ← Logger.foreign_eq_handlers_iff]
  obtain hl | ⟨hl, hp⟩ := isMisnomer_of_setup_ne_ok ls h
  · rw [get_setup_of_isMisnomer_logLevel ls hl]
    exact ⟨fun ⟨_, _, hh⟩ => ⟨hh, fun hn => absurd hl hn⟩, fun ⟨hh, _⟩ => ⟨rfl, rfl, hh⟩⟩
  · rw [get_setup_of_isMisnomer_printLevel ls hl hp]
    dsimp only
    constructor
    · rintro ⟨hv, hn, hh⟩
      exact ⟨hh, fun _ => ⟨hv.symm, hn.symm⟩⟩
    · rintro ⟨hh, hs⟩
      obtain ⟨hv, hn⟩ := hs hl
      exact ⟨hv.symm, hn.symm, hh⟩

end Setup

/-- A set-up completes exactly if neither name is a misnomer. Then the logger has one new handler for each
stream besides those of others, and a name that is not known has asked for the default. Otherwise it has only
the handlers of others, and with a name of a level as the first of the two, that level is set and records are not
passed on; so all is as before exactly where it was that way already. -/
theorem setup_spec (ls : Loggers) (s : Settings) :
    ((setup ls s).2 = .ok () ↔ ¬ IsMisnomer s.logLevel ∧ ¬ IsMisnomer s.printLevel) ∧
    ((setup ls s).2 = .ok () →
      (setup ls s).1.get setupName =
          { level := levelOf s.logLevel warningLevel
            propagate := false
            handlers := (ls.get setupName).foreign ++ splitHandlers (levelOf s.printLevel errorLevel) } ∧
        ((setup ls s).1.get setupName).own = splitHandlers (levelOf s.printLevel errorLevel) ∧
        ((setup ls s).1.get setupName).own.map (·.stream) = [some .stdout, some .stderr]) ∧
    (IsMisnomer s.logLevel →
      (setup ls s).2 = .error (levelError s.logLevel) ∧
        (setup ls s).1.get setupName = { ls.get setupName with handlers := (ls.get setupName).foreign }) ∧
    (¬ IsMisnomer s.logLevel → IsMisnomer s.printLevel →
      (setup ls s).2 = .error (boundError s.printLevel) ∧
        (setup ls s).1.get setupName =
          { level := levelOf s.logLevel warningLevel
            propagate := false
            handlers := (ls.get setupName).foreign }) ∧
    ((setup ls s).2 ≠ .ok () →
      (((setup ls s).1.get setupName).cleared = (ls.get setupName).cleared ↔
        (ls.get setupName).own = [] ∧
          (¬ IsMisnomer s.logLevel →
            (ls.get setupName).level = levelOf s.logLevel warningLevel ∧
              (ls.get setupName).propagate = false))) ∧
    ∀ other, other ≠ setupName → ((setup ls s).1.get other).cleared = (ls.get other).cleared := by
  refine ⟨setup_eq_ok_iff ls, fun h => ?_, fun hl => ?_, fun hl hp => ?_, cleared_get_setup_iff ls,
    fun other ho => cleared_get_setup ls ho⟩
  · obtain ⟨hl, hp⟩ := (setup_eq_ok_iff ls).1 h
    have ho := own_get_setup_of_levels ls hl hp
    exact ⟨get_setup_of_levels ls hl hp, ho, by rw [ho]; rfl⟩
  · refine ⟨?_, get_setup_of_isMisnomer_logLevel ls hl⟩
    rw [setup_of_isMisnomer_logLevel ls hl]
  · refine ⟨?_, get_setup_of_isMisnomer_printLevel ls hl hp⟩
    rw [setup_of_isMisnomer_printLevel ls hl hp]

/-- Set-ups that fail after one that completed: the handlers are gone, and a misnomer as the second name comes
too late for the level as well. -/
theorem setup_halfway :
    (setup [] {}).2 = .ok () ∧
    (setup [] {}).1.get setupName = ⟨warningLevel, false, nullHandler :: splitHandlers errorLevel, []⟩ ∧
    (setup (setup [] {}).1 { logLevel := "basic_format" }).2 = .error (.unknownLevel basicFormat) ∧
    (setup (setup [] {}).1 { logLevel := "basic_format" }).1.get setupName =
      ⟨warningLevel, false, [nullHandler], []⟩ ∧
    (setup (setup [] {}).1 { logLevel := "DEBUG", printLevel := "_styles" }).2 = .error (.incomparable "dict") ∧
    (setup (setup [] {}).1 { logLevel := "DEBUG", printLevel := "_styles" }).1.get setupName =
      ⟨debugLevel, false, [nullHandler], []⟩ := by
  decide

/-! What is left of the output. -/

/-- Of a logger that does not pass records on, nothing but its own handlers writes. -/
theorem emit_subset {ls : Loggers} {r : Record} (hr : r.logger ≠ rootName)
    (hp : (ls.get r.logger).propagate = false) :
    emit ls r ⊆ (ls.get r.logger).handlers.filterMap (·.write? r) := by
  have hc : ls.chain r.logger = r.logger :: ls.chainWithin r.logger.length (ls.parent r.logger) := by
    rw [Loggers.chain, Loggers.chainWithin, if_neg hr]
  rw [emit, hc, reached, hp]
  split
  · simp
  · exact List.nil_subset _

/-- A set-up that fails after one that completed has lost the output of the library's logger, but for what the
handlers of others write. -/
theorem emit_setup_subset_of_ne_ok {ls : Loggers} {s s' : Settings} {r : Record} (hr : r.logger = setupName)
    (h : (setup ls s).2 = .ok ()) (h' : (setup (setup ls s).1 s').2 ≠ .ok ()) :
    emit (setup (setup ls s).1 s').1 r ⊆ (ls.get setupName).foreign.filterMap (·.write? r) := by
  obtain ⟨hl, hp⟩ := (setup_eq_ok_iff ls).1 h
  have hg := get_setup_of_levels ls hl hp
  have hn : ((setup ls s).1.get setupName).propagate = false := by rw [hg]
  have hf : ((setup ls s).1.get setupName).foreign = (ls.get setupName).foreign := by
    rw [Logger.foreign, hg]
    exact (foreign_append_splitHandlers _ _).trans (foreign_foreign _)
  have hs := emit_subset (r := r) (by rw [hr]; decide) (hr ▸ propagate_setup_of_ne_ok _ h' hn)
  rwa [hr, handlers_setup_of_ne_ok _ h', hf] at hs

/-! Runs in which set-ups may fail. -/

/-- Whether a logger has a pair of handlers for split logging, or none. -/
def HasAtMostPair (l : Logger) : Prop := l.own = [] ∨ ∃ n, l.own = splitHandlers n

theorem hasAtMostPair_step {ls : Loggers} (h : ∀ name, HasAtMostPair (ls.get name)) (e : Event) (name : String) :
    HasAtMostPair ((step ls e).get name) := by
  cases e with
  | split n level stderrLevel =>
    rw [step, split, Loggers.get_configure]
    split
    · exact .inr ⟨stderrLevel, own_append_splitHandlers (own_foreign _) _⟩
    · exact h name
  | setup s =>
    rw [step]
    by_cases hn : name = setupName
    · subst hn
      by_cases hs : (setup ls s).2 = .ok ()
      · obtain ⟨hl, hp⟩ := (setup_eq_ok_iff ls).1 hs
        exact .inr ⟨_, own_get_setup_of_levels ls hl hp⟩
      · left
        rw [Logger.own, handlers_setup_of_ne_ok ls hs]
        exact own_foreign _
    · have hc := (Logger.cleared_eq_iff _ _).1 (cleared_get_setup (s := s) ls hn)
      rw [HasAtMostPair, Logger.own, hc.2.2]
      exact h name
  | record n level message =>
    rw [step, after, Loggers.get_put]
    split
    · exact h (canonical n)
    · exact h name

/-- Set-ups, whether they complete or not, never leave more than one pair of handlers on a logger. -/
theorem hasAtMostPair_run (events : List Event) (name : String) : HasAtMostPair ((run events).get name) := by
  induction events using List.reverseRecOn generalizing name with
  | nil => exact .inl (own_asNew name)
  | append_singleton events e ih =>
    rw [run, List.foldl_append]
    exact hasAtMostPair_step ih e name

end Conform.Logging
