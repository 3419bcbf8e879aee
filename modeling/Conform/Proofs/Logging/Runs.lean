import Conform.Proofs.Logging.Lineage

/-! Runs of set-ups and records. The last configuration of each logger says what the loggers are like after a
run: the ones with a configuration have its level and its two handlers and do not pass records on, and the
others are as new. So a record goes to the handlers of the nearest configuration of its lineage, and as these
two share the levels out, to one of them. -/

namespace Conform.Logging

inductive Event where
  | split (name : String) (level stderrLevel : Int)
  | setup (settings : Settings)
  | record (name : String) (level : Int) (message : String)
  deriving DecidableEq, Repr

def step (ls : Loggers) : Event → Loggers
  | .split name level stderrLevel => split ls (canonical name) level stderrLevel
  | .setup s => (setup ls s).1
  | .record name level message => after ls ⟨canonical name, level, message⟩

def run (events : List Event) : Loggers := events.foldl step []

/-- What split logging is asked for. -/
structure Config where
  level : Int
  stderrLevel : Int
  deriving DecidableEq, Repr

/-- What settings ask for, if their names stand for levels. -/
def configOf? (s : Settings) : Option Config :=
  match Setting.find s.logLevel warningLevel, Setting.find s.printLevel errorLevel with
  | .level n, .level m => some ⟨n, m⟩
  | _, _ => none

namespace Event

/-- Whether it is no set-up that fails. -/
def Completes : Event → Prop
  | .setup s => (Logging.setup [] s).2 = .ok ()
  | _ => True

/-- The configuration that it gives to a logger. -/
def configFor? (e : Event) (logger : String) : Option Config :=
  match e with
  | .split name level stderrLevel => if logger = canonical name then some ⟨level, stderrLevel⟩ else none
  | .setup s => if logger = setupName then configOf? s else none
  | .record .. => none

instance (e : Event) : Decidable e.Completes :=
  match e with
  | .setup s => inferInstanceAs (Decidable ((Logging.setup [] s).2 = .ok ()))
  | .split .. => inferInstanceAs (Decidable True)
  | .record .. => inferInstanceAs (Decidable True)

end Event

/-- The last configuration of a logger. -/
def lastConfig (events : List Event) (logger : String) : Option Config :=
  events.reverse.findSome? (·.configFor? logger)

/-- The last configuration of the nearest logger of a lineage that has one. -/
def nearestConfig (events : List Event) (logger : String) : Option Config :=
  (lineage logger).findSome? (lastConfig events)

theorem lastConfig_append_singleton (events : List Event) (e : Event) (logger : String) :
    lastConfig (events ++ [e]) logger = (e.configFor? logger).or (lastConfig events logger) := by
  rw [lastConfig, List.reverse_append, List.reverse_singleton, List.singleton_append, List.findSome?_cons]
  cases e.configFor? logger <;> rfl

theorem setup_of_completes {s : Settings} (h : (Event.setup s).Completes) (ls : Loggers) :
    ∃ c, configOf? s = some c ∧ setup ls s = (split ls setupName c.level c.stderrLevel, .ok ()) := by
  have h : (setup [] s).2 = .ok () := h
  simp only [setup] at h ⊢
  unfold configOf?
  cases hl : Setting.find s.logLevel warningLevel with
  | level n =>
    cases hp : Setting.find s.printLevel errorLevel with
    | level m => exact ⟨⟨n, m⟩, rfl, rfl⟩
    | format t => simp [hl, hp] at h
    | styles => simp [hl, hp] at h
  | format t => simp [hl] at h
  | styles => simp [hl] at h

/-! What a step does to the loggers. -/

/-- A logger without what it took. -/
def Logger.cleared (l : Logger) : Logger := { l with answers := [] }

theorem asNew_cases (name : String) :
    asNew name = { level := warningLevel } ∨ asNew name = { handlers := [nullHandler] } ∨ asNew name = {} := by
  unfold asNew
  split
  · exact .inl rfl
  · split
    · exact .inr (.inl rfl)
    · exact .inr (.inr rfl)

theorem cleared_asNew (name : String) : (asNew name).cleared = asNew name := by
  rcases asNew_cases name with h | h | h <;> rw [h] <;> rfl

theorem foreign_asNew (name : String) : (asNew name).foreign = (asNew name).handlers := by
  rcases asNew_cases name with h | h | h <;> rw [h] <;> rfl

theorem own_asNew (name : String) : (asNew name).own = [] := by
  rcases asNew_cases name with h | h | h <;> rw [h] <;> rfl

/-- The handler that a logger may have from the start writes nothing. -/
theorem write?_of_mem_asNew {name : String} {h : Handler} (hm : h ∈ (asNew name).handlers) (r : Record) :
    h.write? r = none := by
  have hs : h.stream = none := by
    rcases asNew_cases name with hn | hn | hn <;> rw [hn] at hm
    · cases hm
    · rw [List.mem_singleton.1 hm]
      rfl
    · cases hm
  rw [Handler.write?, hs]
  exact ite_self _

theorem own_foreign (l : Logger) : l.foreign.filter (·.isSplit) = [] := by
  simp [Logger.foreign]

theorem foreign_foreign (l : Logger) : l.foreign.filter (!·.isSplit) = l.foreign :=
  List.filter_filter.trans (by simp [Logger.foreign])

theorem own_append_splitHandlers {hs : List Handler} (h : hs.filter (·.isSplit) = []) (stderrLevel : Int) :
    (hs ++ splitHandlers stderrLevel).filter (·.isSplit) = splitHandlers stderrLevel := by
  rw [List.filter_append, h]
  rfl

theorem foreign_append_splitHandlers (hs : List Handler) (stderrLevel : Int) :
    (hs ++ splitHandlers stderrLevel).filter (!·.isSplit) = hs.filter (!·.isSplit) := by
  rw [List.filter_append]
  exact List.append_nil _

namespace Loggers

variable {ls : Loggers}

theorem get_put (name : String) (l : Logger) (other : String) :
    Loggers.get (ls.put name l) other = if other = name then l else ls.get other := by
  unfold get
  split
  · next h => rw [h, NameTable.lookup_put_self, Option.getD_some]
  · next h => rw [NameTable.lookup_put_of_ne _ _ h]

theorem get_configure (name : String) (l : Logger) (other : String) :
    (configure ls name l).get other = (if other = name then l else ls.get other).cleared := by
  have lookup_map (t : Loggers) :
      (t.map fun e => (e.1, e.2.cleared)).lookup other = (t.lookup other).map Logger.cleared := by
    induction t with
    | nil => rfl
    | cons e t ih =>
      rw [List.map_cons, List.lookup_cons, List.lookup_cons, ih]
      split <;> rfl
  change (List.lookup other ((ls.put name l).map fun e => (e.1, e.2.cleared))).getD (asNew other) = _
  rw [← get_put, get, lookup_map]
  cases List.lookup other (ls.put name l) with
  | none => exact (cleared_asNew other).symm
  | some l => rfl

/-- A logger that is put among others comes last, or was there already. -/
theorem names_put (ls : Loggers) (name : String) (l : Logger) :
    ∃ more, names (ls.put name l) = ls.names ++ more := by
  induction ls with
  | nil => exact ⟨[name], rfl⟩
  | cons e ls ih =>
    unfold NameTable.put
    split
    · next h => exact ⟨[], by simp [names, h]⟩
    · obtain ⟨more, hm⟩ := ih
      exact ⟨more, congrArg (e.1 :: ·) hm⟩

/-- Loggers in order were in order before others came into use. -/
theorem InOrder.of_names {ls' : Loggers} {name : String} {more : List String}
    (hn : ls'.names = ls.names ++ more) (ho : ls'.InOrder name) : ls.InOrder name := by
  intro n hm a ha hr hu
  rw [isUsed_iff] at hu
  have h := ho n hm a ha hr (by rw [isUsed_iff, hn]; exact List.mem_append_left _ hu)
  rw [precedes_iff, hn, List.takeWhile_append] at h
  rw [precedes_iff]
  split at h
  · next hall =>
    have : ls.names.takeWhile (· ≠ n) = ls.names := (List.takeWhile_sublist _).eq_of_length hall
    rwa [this]
  · exact h

end Loggers

/-! Loggers under configurations. -/

section Follows

variable {ls : Loggers} {configs : String → Option Config}

/-- A logger with a configuration besides what handlers it has. -/
def Config.logger (c : Config) (foreign : List Handler) : Logger :=
  { level := c.level, propagate := false, handlers := foreign ++ splitHandlers c.stderrLevel }

def loggerUnder (configs : String → Option Config) (name : String) : Logger :=
  (configs name).elim (asNew name) fun c => c.logger (asNew name).handlers

theorem foreign_loggerUnder (configs : String → Option Config) (name : String) :
    (loggerUnder configs name).foreign = (asNew name).handlers := by
  unfold loggerUnder
  cases configs name with
  | none => exact foreign_asNew name
  | some c => exact (foreign_append_splitHandlers _ _).trans (foreign_asNew name)

/-- Whether the loggers are as their configurations say, whatever they took so far. -/
def AreUnder (ls : Loggers) (configs : String → Option Config) : Prop :=
  ∀ name, (ls.get name).cleared = loggerUnder configs name

/-- Whether moreover they took what they would take now. -/
structure Follows (ls : Loggers) (configs : String → Option Config) : Prop where
  areUnder : AreUnder ls configs
  answers : ∀ name, HasSingleDots name → ls.InOrder name → ∀ a ∈ (ls.get name).answers,
    a.2 = (decide (0 < a.1) && decide (effectiveLevel ls name ≤ a.1))

theorem AreUnder.level (h : AreUnder ls configs) (name : String) :
    (ls.get name).level = (loggerUnder configs name).level := by
  rw [← h name, Logger.cleared]

theorem AreUnder.propagate (h : AreUnder ls configs) (name : String) :
    (ls.get name).propagate = (loggerUnder configs name).propagate := by
  rw [← h name, Logger.cleared]

theorem AreUnder.handlers (h : AreUnder ls configs) (name : String) :
    (ls.get name).handlers = (loggerUnder configs name).handlers := by
  rw [← h name, Logger.cleared]

theorem get_of_isUsed_eq_false {name : String} (h : ls.isUsed name = false) : ls.get name = asNew name := by
  rw [Loggers.isUsed, Option.isSome_eq_false_iff, Option.isNone_iff_eq_none] at h
  rw [Loggers.get, h, Option.getD_none]

theorem asNew_of_ne_root {name : String} (h : name ≠ rootName) :
    (asNew name).level = 0 ∧ (asNew name).propagate = true := by
  rw [asNew, if_neg h]
  split <;> exact ⟨rfl, rfl⟩

/-- The level of a lineage is the first that is not zero. -/
theorem effectiveLevel_of_areUnder {name : String} (h : AreUnder ls configs) (hs : HasSingleDots name)
    (ho : ls.InOrder name) :
    effectiveLevel ls name =
      (((lineage name).map fun n => (loggerUnder configs n).level).find? (· ≠ 0)).getD 0 := by
  rw [effectiveLevel, List.find?_map, List.find?_map, Loggers.find?_chain hs ho]
  · simp only [Function.comp_def, h.level]
  · intro n hn hu
    simp [get_of_isUsed_eq_false hu, asNew_of_ne_root hn]

theorem isEnabled_of_follows {r : Record} (h : Follows ls configs) (hs : HasSingleDots r.logger)
    (ho : ls.InOrder r.logger) :
    isEnabled ls r = (decide (0 < r.level) && decide (effectiveLevel ls r.logger ≤ r.level)) := by
  unfold isEnabled
  cases ha : (ls.get r.logger).answers.lookup r.level with
  | none => rfl
  | some b =>
    obtain ⟨before, after, hl, -⟩ := List.lookup_eq_some_iff.1 ha
    exact h.answers _ hs ho (r.level, b) (by simp [hl])

theorem follows_nil : Follows [] fun _ => none where
  areUnder name := cleared_asNew name
  answers name _ _ a ha := by
    have : (asNew name).answers = [] := congrArg Logger.answers (cleared_asNew name).symm
    rw [show Loggers.get [] name = asNew name from rfl, this] at ha
    cases ha

/-- A configuration takes the place of the logger's earlier one, and no logger stands by what it took. -/
theorem Follows.split (h : Follows ls configs) (name : String) (c : Config) :
    Follows (split ls name c.level c.stderrLevel) fun n => if n = name then some c else configs n where
  areUnder n := by
    rw [Logging.split, Loggers.get_configure, loggerUnder]
    split
    · next hn =>
      have hf : (ls.get n).foreign = (asNew n).handlers := by
        rw [Logger.foreign, h.areUnder.handlers, ← foreign_loggerUnder configs, Logger.foreign]
      rw [← hn, hf]
      rfl
    · exact h.areUnder n
  answers n _ _ a ha := by
    rw [Logging.split, Loggers.get_configure] at ha
    cases ha

/-- A record leaves the configurations as they are. -/
theorem Follows.record (h : Follows ls configs) (r : Record) : Follows (after ls r) configs := by
  have get_after (n : String) : (after ls r).get n =
      if n = r.logger then { ls.get n with answers := (r.level, isEnabled ls r) :: (ls.get n).answers }
      else ls.get n := by
    unfold after
    rw [Loggers.get_put]
    split
    · next hn => rw [hn]
    · rfl
  have hu : AreUnder (after ls r) configs := by
    intro n
    rw [get_after, ← h.areUnder n]
    split <;> rfl
  refine ⟨hu, fun n hs ho a ha => ?_⟩
  have ho' : ls.InOrder n := by
    obtain ⟨more, hm⟩ := Loggers.names_put ls r.logger _
    exact ho.of_names hm
  rw [effectiveLevel_of_areUnder hu hs ho, ← effectiveLevel_of_areUnder h.areUnder hs ho']
  rw [get_after] at ha
  split at ha
  · next hn =>
    subst hn
    rcases List.mem_cons.1 ha with rfl | ha
    · exact isEnabled_of_follows h hs ho'
    · exact h.answers _ hs ho' a ha
  · exact h.answers n hs ho' a ha

theorem Follows.step {e : Event} (h : Follows ls configs) (he : e.Completes) :
    Follows (step ls e) fun n => (e.configFor? n).or (configs n) := by
  cases e with
  | split name level stderrLevel =>
    have hn : (fun n => ((Event.split name level stderrLevel).configFor? n).or (configs n)) =
        fun n => if n = canonical name then some ⟨level, stderrLevel⟩ else configs n := by
      funext n
      simp only [Event.configFor?]
      split <;> rfl
    rw [hn]
    exact h.split (canonical name) ⟨level, stderrLevel⟩
  | setup s =>
    obtain ⟨c, hc, hs⟩ := setup_of_completes he ls
    have hn : (fun n => ((Event.setup s).configFor? n).or (configs n)) =
        fun n => if n = setupName then some c else configs n := by
      funext n
      simp only [Event.configFor?, hc]
      split <;> rfl
    change Follows (setup ls s).1 _
    rw [hn, hs]
    exact h.split setupName c
  | record name level message => exact h.record ⟨canonical name, level, message⟩

theorem follows_run {events : List Event} (h : ∀ e ∈ events, e.Completes) :
    Follows (run events) (lastConfig events) := by
  induction events using List.reverseRecOn with
  | nil => exact follows_nil
  | append_singleton events e ih =>
    rw [List.forall_mem_append, List.forall_mem_singleton] at h
    have := (ih h.1).step h.2
    simp only [← lastConfig_append_singleton] at this
    rw [run, List.foldl_append]
    exact this

/-! Where a record goes. -/

/-- The handlers that write a record are those of the first logger with a configuration, where there is one. -/
theorem filterMap_reached {names : List String} {c : Config} (h : AreUnder ls configs)
    (hc : names.findSome? configs = some c) (r : Record) :
    ((reached ls names).flatMap (·.handlers)).filterMap (·.write? r) =
      (splitHandlers c.stderrLevel).filterMap (·.write? r) := by
  have silent (n : String) : (asNew n).handlers.filterMap (·.write? r) = [] :=
    List.filterMap_eq_nil_iff.2 fun _ hm => write?_of_mem_asNew hm r
  induction names with
  | nil => cases hc
  | cons n names ih =>
    rw [reached, List.flatMap_cons, List.filterMap_append, h.handlers, h.propagate]
    rw [List.findSome?_cons] at hc
    unfold loggerUnder
    cases hn : configs n with
    | none =>
      rw [hn] at hc
      have hp : (asNew n).propagate = true := by
        rcases asNew_cases n with h | h | h <;> rw [h]
      simp [hp, silent n, ih hc]
    | some d =>
      rw [hn] at hc
      obtain rfl := Option.some.inj hc
      simp [Config.logger, List.filterMap_append, silent n]

theorem findSome?_chain {name : String} (h : AreUnder ls configs) (hs : HasSingleDots name)
    (ho : ls.InOrder name) : (ls.chain name).findSome? configs = (lineage name).findSome? configs := by
  have findSome?_eq (names : List String) :
      names.findSome? configs = (names.find? fun n => (configs n).isSome).bind configs := by
    induction names with
    | nil => rfl
    | cons n names ih =>
      rw [List.findSome?_cons, List.find?_cons]
      cases hn : configs n with
      | none => exact ih
      | some c => exact hn.symm
  rw [findSome?_eq, findSome?_eq, Loggers.find?_chain hs ho]
  intro n hn hu
  -- a logger with a configuration does not pass records on, and so it is in use
  have := h.propagate n
  rw [get_of_isUsed_eq_false hu, (asNew_of_ne_root hn).2, loggerUnder] at this
  cases hc : configs n with
  | none => rfl
  | some c =>
    rw [hc] at this
    cases this

/-- The two handlers share out the levels for debugging and above. -/
theorem filterMap_splitHandlers {r : Record} (stderrLevel : Int) (h : debugLevel ≤ r.level) :
    (splitHandlers stderrLevel).filterMap (·.write? r) =
      [(if r.level < max stderrLevel debugLevel then .stdout else .stderr, r.text)] := by
  have ho : Handler.takes ⟨some .stdout, debugLevel, [max stderrLevel debugLevel - 1], true⟩ r.level =
      decide (r.level < max stderrLevel debugLevel) := by
    rw [Handler.takes, decide_eq_true h, Bool.true_and, List.all_cons, List.all_nil, Bool.and_true,
      decide_eq_decide]
    omega
  have he : Handler.takes ⟨some .stderr, max stderrLevel debugLevel, [], true⟩ r.level =
      !decide (r.level < max stderrLevel debugLevel) := by
    rw [Handler.takes, List.all_nil, Bool.and_true, ← decide_not, decide_eq_decide]
    exact Int.not_lt.symm
  simp only [splitHandlers, List.filterMap_cons, List.filterMap_nil, Handler.write?, ho, he]
  by_cases hb : r.level < max stderrLevel debugLevel <;> simp [hb]

end Follows

/-- After a run every logger with a configuration has, besides the handlers it began with, one handler for each
stream, by its last configuration, and a record for debugging or above goes out once, if its logger's level lets it: to the stream that the
nearest configuration of the lineage says. -/
theorem emit_run {events : List Event} (h : ∀ e ∈ events, e.Completes) :
    (∀ logger c, lastConfig events logger = some c →
      ((run events).get logger).handlers = (asNew logger).handlers ++ splitHandlers c.stderrLevel ∧
        ((run events).get logger).own = splitHandlers c.stderrLevel ∧
        (splitHandlers c.stderrLevel).map (·.stream) = [some .stdout, some .stderr]) ∧
    ∀ (r : Record) (c : Config), debugLevel ≤ r.level → HasSingleDots r.logger →
      (run events).InOrder r.logger → nearestConfig events r.logger = some c →
      emit (run events) r =
        if effectiveLevel (run events) r.logger ≤ r.level then
          [(if r.level < max c.stderrLevel debugLevel then .stdout else .stderr, r.text)]
        else [] := by
  have hf := follows_run h
  constructor
  · intro logger c hc
    have hh : ((run events).get logger).handlers = (asNew logger).handlers ++ splitHandlers c.stderrLevel := by
      rw [hf.areUnder.handlers, loggerUnder, hc]
      rfl
    refine ⟨hh, ?_, rfl⟩
    rw [Logger.own, hh]
    exact own_append_splitHandlers (own_asNew logger) _
  · intro r c hr hs ho hc
    have hpos : 0 < r.level := by
      have : (0 : Int) < debugLevel := by decide
      omega
    rw [nearestConfig, ← findSome?_chain hf.areUnder hs ho] at hc
    rw [emit, isEnabled_of_follows hf hs ho, filterMap_reached hf.areUnder hc, filterMap_splitHandlers _ hr,
      decide_eq_true hpos, Bool.true_and]
    simp only [decide_eq_true_eq]

def reconfigured : List Event :=
  [.split "" 30 40, .record "app.db" 20 "opened", .split "app" 20 25, .setup {}, .split "app" 15 5]

/-- A logger below one that was set up twice, after it took a record. -/
theorem emit_reconfigured :
    (∀ e ∈ reconfigured, e.Completes) ∧ HasSingleDots "app.db" ∧ (run reconfigured).InOrder "app.db" ∧
      nearestConfig reconfigured "app.db" = some ⟨15, 5⟩ ∧
      ((run reconfigured).get "app").own.map (·.stream) = [some .stdout, some .stderr] ∧
      emit (run reconfigured) ⟨"app.db", 10, "read"⟩ = [] ∧
      emit (run reconfigured) ⟨"app.db", 20, "closed"⟩ = [(.stderr, "app.db - INFO - closed\n")] := by
  have hc : ∀ e ∈ reconfigured, e.Completes := by decide
  have hs : HasSingleDots "app.db" := by decide
  have ho : (run reconfigured).InOrder "app.db" := by decide
  have hn : nearestConfig reconfigured "app.db" = some ⟨15, 5⟩ := by decide
  have ha : lastConfig reconfigured "app" = some ⟨15, 5⟩ := by decide
  obtain ⟨hh, he⟩ := emit_run hc
  refine ⟨hc, hs, ho, hn, ?_, ?_, ?_⟩
  · rw [(hh "app" _ ha).2.1]
    exact (hh "app" _ ha).2.2
  · rw [he ⟨"app.db", 10, "read"⟩ _ (by decide) hs ho hn]
    decide
  · rw [he ⟨"app.db", 20, "closed"⟩ _ (by decide) hs ho hn]
    decide

/-- Where two dots stand in a row, or a logger named like the beginning of the root's name came into use after
one below it, the nearest configuration is passed by. -/
theorem emit_past_nearestConfig :
    (nearestConfig [.split "" 10 40, .split "a" 10 20] "a..b" = some ⟨10, 20⟩ ∧
      emit (run [.split "" 10 40, .split "a" 10 20]) ⟨"a..b", 30, "text"⟩ =
        [(.stdout, "a..b - WARNING - text\n")]) ∧
    nearestConfig [.split "" 10 40, .record "r.x" 10 "first", .split "r" 10 20] "r.x" = some ⟨10, 20⟩ ∧
      emit (run [.split "" 10 40, .record "r.x" 10 "first", .split "r" 10 20]) ⟨"r.x", 30, "text"⟩ =
        [(.stdout, "r.x - WARNING - text\n")] := by
  decide

end Conform.Logging
