import ConsoleKit.Plan

/-!
# What a plan depends on

The environment is asked for one variable, once, whatever the arguments are and whatever the lookup does besides
answering (`make_eq_map`). A plan is therefore a function of that variable's value and of the arguments
(`Plan.forHost`), and of these only the first argument counts, and a value that is missing is as good as an empty one
(`forHost_congr`). There is always a plan, since a missing console is the one error that can be met
(`planned_from_host_and_command`).
-/

namespace ConsoleKit.Plan

variable {args args' : List String} {value value' : Option String} {ip command : String}

/-- What to do with the given arguments, for a value of the host variable. -/
def forHost (args : List String) (value : Option String) : Except Error Plan :=
  ofConsole args ((Console.ofHostValue? value).mapError MissingVariable.toError)

/-- The environment is asked once, for the host variable. -/
theorem make_eq_map {m : Type → Type} [Monad m] [LawfulMonad m] (args : List String)
    (lookup : String → m (Option String)) : make args lookup = forHost args <$> lookup Console.hostVariable := by
  simp only [make, Console.fromEnvironment, bind_pure_comp, Functor.map_map]
  rfl

theorem makeRecorded_eq (args : List String) (lookup : String → Option String) :
    makeRecorded args lookup = (forHost args (lookup Console.hostVariable), [Console.hostVariable]) := by
  unfold makeRecorded
  rw [make_eq_map]
  rfl

/-! ## The plan for a value -/

theorem ofHostValue?_of_getD_eq (h : value.getD "" = "") : Console.ofHostValue? value = .error ⟨Console.hostVariable⟩ := by
  cases value with
  | none => rfl
  | some host =>
    obtain rfl : host = "" := h
    rfl

theorem ofHostValue?_of_ne_empty (hne : ip ≠ "") : Console.ofHostValue? (some ip) = .ok (Console.ofHost ip) := by
  have hempty : ¬ip.isEmpty := by simpa using hne
  simp only [Console.ofHostValue?, hempty]
  rfl

theorem forHost_of_no_host (h : value.getD "" = "") : forHost args value = .ok (.noConsole "IP is empty!") := by
  rw [forHost, ofHostValue?_of_getD_eq h]
  rfl

theorem forHost_of_ne_empty (hne : ip ≠ "") (args : List String) :
    forHost args (some ip) = ofConsole args (.ok (Console.ofHost ip)) := by
  rw [forHost, ofHostValue?_of_ne_empty hne]
  rfl

theorem forHost_of_no_command (hne : ip ≠ "") (hargs : args[1]? = none) : forHost args (some ip) = .ok .noCommand := by
  rw [forHost_of_ne_empty hne]
  simp only [ofConsole, hargs]

theorem forHost_of_command (hne : ip ≠ "") (hargs : args[1]? = some command) :
    forHost args (some ip) = .ok (.send (Console.ofHost ip) command) := by
  rw [forHost_of_ne_empty hne]
  simp only [ofConsole, hargs]

/-- The three ways in which a plan is made. -/
theorem forHost_cases (args : List String) (value : Option String) :
    (value.getD "" = "" ∧ forHost args value = .ok (.noConsole "IP is empty!")) ∨
      ∃ ip, value = some ip ∧ ip ≠ "" ∧
        (args[1]? = none ∧ forHost args value = .ok .noCommand ∨
          ∃ command, args[1]? = some command ∧ forHost args value = .ok (.send (Console.ofHost ip) command)) := by
  by_cases hempty : value.getD "" = ""
  · exact .inl ⟨hempty, forHost_of_no_host hempty⟩
  · right
    cases value with
    | none => exact absurd rfl hempty
    | some ip =>
      have hne : ip ≠ "" := hempty
      refine ⟨ip, rfl, hne, ?_⟩
      cases hargs : args[1]? with
      | none => exact .inl ⟨rfl, forHost_of_no_command hne hargs⟩
      | some command => exact .inr ⟨command, rfl, forHost_of_command hne hargs⟩

/-- A missing value is as good as an empty one, and no argument but the first counts. -/
theorem forHost_congr (hvalue : value'.getD "" = value.getD "") (hargs : args'[1]? = args[1]?) :
    forHost args' value' = forHost args value := by
  rcases forHost_cases args value with ⟨hempty, hplan⟩ | ⟨ip, rfl, hne, hplan⟩
  · rw [hplan, forHost_of_no_host (hvalue.trans hempty)]
  · obtain rfl : value' = some ip := by
      cases value' with
      | none => exact absurd hvalue.symm hne
      | some ip' => exact congrArg some hvalue
    rcases hplan with ⟨hnone, hplan⟩ | ⟨command, hcommand, hplan⟩
    · rw [hplan, forHost_of_no_command hne (hargs.trans hnone)]
    · rw [hplan, forHost_of_command hne (hargs.trans hcommand)]

theorem getD_eq_empty_iff : value.getD "" = "" ↔ value = none ∨ value = some "" := by
  cases value <;> simp

/-- There always is a plan. -/
theorem exists_plan (args : List String) (value : Option String) : ∃ plan, forHost args value = .ok plan := by
  rcases forHost_cases args value with ⟨-, hplan⟩ | ⟨ip, -, -, ⟨-, hplan⟩ | ⟨command, -, hplan⟩⟩
  · exact ⟨_, hplan⟩
  · exact ⟨_, hplan⟩
  · exact ⟨_, hplan⟩

theorem forHost_eq_noConsole_iff {message : String} : forHost args value = .ok (.noConsole message) ↔
    (value = none ∨ value = some "") ∧ message = "IP is empty!" := by
  rcases forHost_cases args value with ⟨hempty, hplan⟩ | ⟨ip, rfl, hne, ⟨-, hplan⟩ | ⟨command, -, hplan⟩⟩
  · rw [hplan, ← getD_eq_empty_iff]
    simp [hempty, eq_comm]
  · simp [hplan, hne]
  · simp [hplan, hne]

theorem forHost_eq_noCommand_iff :
    forHost args value = .ok .noCommand ↔ (∃ ip, value = some ip ∧ ip ≠ "") ∧ args.length < 2 := by
  have hlength : args.length < 2 ↔ args[1]? = none := by
    rw [List.getElem?_eq_none_iff]
    omega
  rw [hlength]
  rcases forHost_cases args value with ⟨hempty, hplan⟩ | ⟨ip, rfl, hne, ⟨hargs, hplan⟩ | ⟨command, hargs, hplan⟩⟩
  · rw [hplan]
    rcases getD_eq_empty_iff.1 hempty with rfl | rfl <;> simp
  · simp [hplan, hne, hargs]
  · simp [hplan, hargs]

theorem forHost_eq_send_iff {console : Console} : forHost args value = .ok (.send console command) ↔
    value = some console.host ∧ console.host ≠ "" ∧ console.port = 6969 ∧ args[1]? = some command := by
  obtain ⟨host, port⟩ := console
  rcases forHost_cases args value with ⟨hempty, hplan⟩ | ⟨ip, rfl, hne, ⟨hargs, hplan⟩ | ⟨command', hargs, hplan⟩⟩
  · rw [hplan]
    rcases getD_eq_empty_iff.1 hempty with rfl | rfl <;> simp [eq_comm]
    intro hempty hne
    exact absurd hempty hne
  · simp [hplan, hargs]
  · simp only [hplan, hargs, Console.ofHost, Console.defaultPort]
    grind

/-! ## Every plan -/

/-- **A plan depends on the host variable and the first argument.** The environment is asked for the host variable,
once, and for nothing else. There always is a plan: to say that there is no console just if the variable is missing or
empty, whatever the arguments are; to show how the program is called just if there is a console and no first argument;
and otherwise to send the first argument as it is to the host as it is, on the default port. Environments that agree on
the variable, where missing and empty are the same, and arguments that agree on the first give the same plan. -/
theorem planned_from_host_and_command (args : List String) (lookup : String → Option String) :
    (makeRecorded args lookup).2 = ["IP"] ∧
    (∃ plan, (makeRecorded args lookup).1 = .ok plan) ∧
    (∀ message, (makeRecorded args lookup).1 = .ok (.noConsole message) ↔
      (lookup "IP" = none ∨ lookup "IP" = some "") ∧ message = "IP is empty!") ∧
    ((makeRecorded args lookup).1 = .ok .noCommand ↔ (∃ ip, lookup "IP" = some ip ∧ ip ≠ "") ∧ args.length < 2) ∧
    (∀ console command, (makeRecorded args lookup).1 = .ok (.send console command) ↔
      lookup "IP" = some console.host ∧ console.host ≠ "" ∧ console.port = 6969 ∧ args[1]? = some command) ∧
    (∀ args' other, (other "IP").getD "" = (lookup "IP").getD "" → args'[1]? = args[1]? →
      makeRecorded args' other = makeRecorded args lookup) := by
  have hplanned : (makeRecorded args lookup).1 = forHost args (lookup "IP") := congrArg Prod.fst (makeRecorded_eq args lookup)
  rw [hplanned]
  refine ⟨congrArg Prod.snd (makeRecorded_eq args lookup), exists_plan args _, fun message => forHost_eq_noConsole_iff,
    forHost_eq_noCommand_iff, fun console command => forHost_eq_send_iff, ?_⟩
  intro args' other hother hargs
  rw [makeRecorded_eq, makeRecorded_eq]
  exact congrArg (·, _) (forHost_congr hother hargs)

/-- Without a console it does not matter that there is a command, nor what other variables hold. -/
theorem planned_from_host_and_command_missing :
    (makeRecorded ["run-lua", "a", "b"] fun name => if name = "HOME" then some "h" else none).1 =
        .ok (.noConsole "IP is empty!") ∧
      makeRecorded ["x", "a"] (fun _ => some "") =
        makeRecorded ["run-lua", "a", "b"] fun name => if name = "HOME" then some "h" else none := by
  obtain ⟨-, -, hnone, -, -, hsame⟩ := planned_from_host_and_command ["run-lua", "a", "b"]
    fun name => if name = "HOME" then some "h" else none
  exact ⟨(hnone _).2 ⟨.inl (by decide), rfl⟩, hsame ["x", "a"] (fun _ => some "") (by decide) rfl⟩

end ConsoleKit.Plan
