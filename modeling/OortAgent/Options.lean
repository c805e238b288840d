import OortAgent.Numerals

/-!
# How `parseOptions` ends

The handlers of `parseOptions` catch `invalid_argument`, which `checkDir` and `stoul` throw. A number of 64 bits or
more makes `stoul` throw `out_of_range`, which none of them catches: it leaves `parseOptions`, and ends the process.

* `parse_parseOptions`: the object that is left, and the configuration of `parseOptions`.
* `parseLoop_thrown_iff`: which options throw.
* `parse_reports_iff`: the arguments for which `parseOptions` reports.
-/

namespace OortAgent

open Lib

/-- A configuration object: `initialized` and `wantUsage` are its marks. -/
structure Configuration where
  config : AgentConfig := {}
  initialized : Bool := false
  wantUsage : Bool := false
  deriving DecidableEq

/-- How `parseOptions` ends. -/
inductive ParseEnd
  | returned (b : Bool)
  | thrown (e : NumError)
  deriving DecidableEq

/-- What a refused option leaves: `workdir` is set before it is checked. -/
def refused (c : AgentConfig) : Opt → AgentConfig
  | .opt 'w' arg => { c with workdir := arg }
  | _ => c

/-- The loop of `parseOptions` on its object, with the end if it is there. -/
def parseLoop (su : Startup) (c : Configuration) : List Opt → Configuration × Option ParseEnd
  | [] => (c, none)
  | o :: rest => match applyOption su c.config o with
    | .ok config => parseLoop su { c with config } rest
    | .error .uncaught => (c, some (.thrown .out_of_range))
    | .error .usage => ({ c with wantUsage := true }, some (.returned false))
    | .error (.message _) => ({ c with config := refused c.config o }, some (.returned false))

/-- `AgentConfig::parseOptions` on an object. -/
def Configuration.parse (su : Startup) (c : Configuration) (argv : List Str) : Configuration × ParseEnd :=
  match parseLoop su { c with config := { c.config with can_interface_enabled := false, uavcan_node_id := 0 } }
      (getopt none argv.tail) with
  | (c, some e) => (c, e)
  | (c, none) =>
    if c.config.workdir = [] then (c, .returned false)
    else if c.config.can_interface_enabled ∧ c.config.uavcan_node_id = 0 then (c, .returned false)
    else ({ c with config := c.config.applyDefaults, initialized := true }, .returned true)

/-- Errors are reported: `parseOptions` returns, and with false the object is not initialized. -/
def Reports (r : Configuration × ParseEnd) : Prop := ∃ b, r.2 = .returned b ∧ (b = false → r.1.initialized = false)

/-! ## Numbers that are too large -/

/-- The digits that `stoul` takes. -/
def numberDigits (s : Str) : Str := (takeSign (s.dropWhile isSpace)).2.2.takeWhile Char.isDigit

/-- The options that take a number. -/
def numberOptions : List Char := ['t', 'i', 'm', 'p', 'n', 'N']

/-- The option takes a number, and the one that is given does not fit into 64 bits. -/
def Opt.Huge : Opt → Prop
  | .opt c arg => c ∈ numberOptions ∧ 18446744073709551616 ≤ digitsValue (numberDigits arg)
  | .unknown => False

/-- `stoul` is out of range exactly if the digits are worth too much; the sign does not matter. -/
theorem stoul_out_of_range_iff {s : Str} :
    stoul s = .error .out_of_range ↔ 18446744073709551616 ≤ digitsValue (numberDigits s) := by
  show (if numberDigits s = [] then (.error .invalid_argument : Except NumError (Nat × Nat))
    else if 18446744073709551616 ≤ digitsValue (numberDigits s) then _ else _) = _ ↔ _
  by_cases hds : numberDigits s = []
  · rw [if_pos hds, hds]
    exact iff_of_false (by simp) (by decide)
  · rw [if_neg hds]
    by_cases hv : 18446744073709551616 ≤ digitsValue (numberDigits s)
    · rw [if_pos hv]
      exact iff_of_true rfl hv
    · rw [if_neg hv]
      exact iff_of_false (by simp) hv

section Options

variable {su : Startup} {o : Opt}

/-- A plain number is not caught exactly if it is too large. -/
theorem numberArg_uncaught_iff {message arg : Str} :
    numberArg message arg = .error .uncaught ↔ 18446744073709551616 ≤ digitsValue (numberDigits arg) := by
  rw [← stoul_out_of_range_iff, numberArg]
  cases hs : stoul arg with
  | ok r => simp
  | error e => cases e <;> simp

theorem minFreeArg_uncaught_iff {c : AgentConfig} {arg : Str} :
    minFreeArg c arg = .error .uncaught ↔ 18446744073709551616 ≤ digitsValue (numberDigits arg) := by
  rw [← stoul_out_of_range_iff, minFreeArg]
  cases hs : stoul arg with
  | ok r =>
    dsimp only
    split
    · simp
    · split <;> simp
  | error e => cases e <;> simp

theorem bind_uncaught_iff {α β : Type} {x : Except Refusal α} {f : α → β} :
    (x.bind fun a => .ok (f a)) = .error .uncaught ↔ x = .error .uncaught := by
  cases x <;> simp [Except.bind]

/-- An option throws exactly if its number is too large. -/
theorem applyOption_uncaught_iff {c : AgentConfig} : applyOption su c o = .error .uncaught ↔ o.Huge := by
  have hnumber : ∀ {ch : Char} {message arg : Str} {f : Nat → AgentConfig}, ch ∈ numberOptions →
      (((numberArg message arg).bind fun n => .ok (f n)) = .error .uncaught ↔ (Opt.opt ch arg).Huge) := by
    intro ch message arg f hc
    rw [bind_uncaught_iff, numberArg_uncaught_iff]
    exact ⟨fun h => ⟨hc, h⟩, fun h => h.2⟩
  unfold applyOption
  split
  · exact iff_of_false (by simp) id
  · refine iff_of_false ?_ (fun h => absurd h.1 (by decide))
    split <;> simp
  · exact hnumber (by decide)
  · exact hnumber (by decide)
  · exact iff_of_false (by simp) (fun h => absurd h.1 (by decide))
  · exact iff_of_false (by simp) (fun h => absurd h.1 (by decide))
  · rw [minFreeArg_uncaught_iff]
    exact ⟨fun h => ⟨by decide, h⟩, fun h => h.2⟩
  · exact hnumber (by decide)
  · refine iff_of_false ?_ (fun h => absurd h.1 (by decide))
    split <;> simp
  · exact iff_of_false (by simp) (fun h => absurd h.1 (by decide))
  · exact hnumber (by decide)
  · exact hnumber (by decide)
  · rename_i hw ht hi hf hs hm hp hl hc hn hN
    refine iff_of_false (by simp) ?_
    rintro ⟨hmem, -⟩
    simp only [numberOptions, List.mem_cons, List.not_mem_nil, or_false] at hmem
    rcases hmem with h | h | h | h | h | h
    · exact ht h
    · exact hi h
    · exact hm h
    · exact hp h
    · exact hn h
    · exact hN h

/-- Options throw exactly if one of them is too large and those before it are accepted. -/
theorem applyOptions_uncaught_iff {opts : List Opt} {c : AgentConfig} :
    applyOptions su c opts = .error .uncaught ↔
      ∃ pre o post, opts = pre ++ o :: post ∧ (∃ c', applyOptions su c pre = .ok c') ∧ o.Huge := by
  induction opts generalizing c with
  | nil =>
    refine iff_of_false (fun h => by cases h) ?_
    rintro ⟨pre, o, post, he, -⟩
    simp at he
  | cons o rest ih =>
    have hcons : applyOptions su c (o :: rest) = (applyOption su c o).bind fun c => applyOptions su c rest := rfl
    rw [hcons]
    cases ho : applyOption su c o with
    | error e =>
      show Except.error e = _ ↔ _
      constructor
      · intro h
        exact ⟨[], o, rest, rfl, ⟨c, rfl⟩, applyOption_uncaught_iff.1 (ho.trans h)⟩
      · rintro ⟨pre, o', post, he, ⟨c', hpre⟩, hhuge⟩
        cases pre with
        | nil =>
          cases he
          rw [← ho]
          exact applyOption_uncaught_iff.2 hhuge
        | cons o'' pre =>
          -- the first option is among those accepted before the large one
          cases he
          have : applyOptions su c (o :: pre) = .error e := by
            show (applyOption su c o).bind _ = _
            rw [ho]
            rfl
          rw [this] at hpre
          cases hpre
    | ok c₁ =>
      show applyOptions su c₁ rest = _ ↔ _
      rw [ih]
      constructor
      · rintro ⟨pre, o', post, rfl, ⟨c', hpre⟩, hhuge⟩
        refine ⟨o :: pre, o', post, rfl, ⟨c', ?_⟩, hhuge⟩
        show (applyOption su c o).bind _ = _
        rw [ho]
        exact hpre
      · rintro ⟨pre, o', post, he, ⟨c', hpre⟩, hhuge⟩
        cases pre with
        | nil =>
          cases he
          rw [applyOption_uncaught_iff.2 hhuge] at ho
          cases ho
        | cons o'' pre =>
          cases he
          have hstep : applyOptions su c (o :: pre) = applyOptions su c₁ pre := by
            show (applyOption su c o).bind _ = _
            rw [ho]
            rfl
          exact ⟨pre, o', post, rfl, ⟨c', hstep ▸ hpre⟩, hhuge⟩

/-! ## The object -/

/-- How a refusal ends `parseOptions`. -/
def Refusal.ends : Refusal → ParseEnd
  | .uncaught => .thrown .out_of_range
  | _ => .returned false

/-- The loop on the object does what the options do to the configuration, and marks nothing as initialized. -/
theorem parseLoop_eq (su : Startup) (opts : List Opt) (c : Configuration) :
    (parseLoop su c opts).1.initialized = c.initialized ∧
    (∀ cfg, applyOptions su c.config opts = .ok cfg → parseLoop su c opts = ({ c with config := cfg }, none)) ∧
    ∀ e, applyOptions su c.config opts = .error e → (parseLoop su c opts).2 = some e.ends := by
  induction opts generalizing c with
  | nil =>
    refine ⟨rfl, fun cfg h => ?_, fun e h => nomatch h⟩
    cases h
    rfl
  | cons o rest ih =>
    have hcons : applyOptions su c.config (o :: rest) =
        (applyOption su c.config o).bind fun c => applyOptions su c rest := rfl
    rw [hcons, parseLoop]
    cases ho : applyOption su c.config o with
    | ok c₁ => exact ih { c with config := c₁ }
    | error e =>
      refine ⟨by cases e <;> rfl, ?_, ?_⟩
      · intro cfg h
        cases h
      · intro e' h
        cases h
        cases e <;> rfl

/-- The object after `parseOptions`: the accepted configuration and its mark, or the end that the refusal makes. -/
theorem parse_parseOptions (su : Startup) (argv : List Str) :
    (∀ cfg, parseOptions su argv = .ok cfg →
      ({} : Configuration).parse su argv = ({ config := cfg, initialized := true }, .returned true)) ∧
    ∀ e, parseOptions su argv = .error e →
      (({} : Configuration).parse su argv).2 = e.ends ∧ (({} : Configuration).parse su argv).1.initialized = false := by
  obtain ⟨hinit, hok, herr⟩ := parseLoop_eq su (getopt none argv.tail) {}
  have hparse : parseOptions su argv = (applyOptions su {} (getopt none argv.tail)).bind fun c =>
      if c.workdir = [] then .error (.message "Workdir must be specified".toList)
      else if c.can_interface_enabled ∧ c.uavcan_node_id = 0 then
        .error (.message "If the CAN interface is enabled, a UAVCAN node id must be specified".toList)
      else .ok c.applyDefaults := rfl
  have hobj : ({} : Configuration).parse su argv = match parseLoop su {} (getopt none argv.tail) with
      | (c, some e) => (c, e)
      | (c, none) =>
        if c.config.workdir = [] then (c, .returned false)
        else if c.config.can_interface_enabled ∧ c.config.uavcan_node_id = 0 then (c, .returned false)
        else ({ c with config := c.config.applyDefaults, initialized := true }, .returned true) := rfl
  rw [hparse, hobj]
  cases ha : applyOptions su {} (getopt none argv.tail) with
  | error e =>
    constructor
    · intro cfg h
      cases h
    · intro e' h
      cases h
      generalize hl : parseLoop su {} (getopt none argv.tail) = l at *
      obtain ⟨c, x⟩ := l
      obtain rfl : x = some e.ends := herr e ha
      exact ⟨rfl, hinit⟩
  | ok c =>
    rw [hok c ha]
    dsimp only [Except.bind]
    by_cases hw : c.workdir = []
    · rw [if_pos hw, if_pos hw]
      constructor
      · intro cfg h
        cases h
      · intro e h
        cases h
        exact ⟨rfl, rfl⟩
    · rw [if_neg hw, if_neg hw]
      by_cases hcan : c.can_interface_enabled ∧ c.uavcan_node_id = 0
      · rw [if_pos hcan, if_pos hcan]
        constructor
        · intro cfg h
          cases h
        · intro e h
          cases h
          exact ⟨rfl, rfl⟩
      · rw [if_neg hcan, if_neg hcan]
        refine ⟨?_, fun e h => nomatch h⟩
        intro cfg h
        cases h
        rfl

end Options

/-- `parseOptions` throws exactly if its options do. -/
theorem parseOptions_uncaught_iff {su : Startup} {argv : List Str} :
    parseOptions su argv = .error .uncaught ↔ applyOptions su {} (getopt none argv.tail) = .error .uncaught := by
  unfold parseOptions
  cases applyOptions su {} (getopt none argv.tail) with
  | error e => rfl
  | ok c =>
    refine iff_of_false ?_ (by simp)
    show ¬ (if c.workdir = [] then _ else if _ then _ else _) = _
    split
    · simp
    · split <;> simp [pure, Except.pure]

/-- **Errors of the command line.** On a fresh object `parseOptions` returns, and with false leaves the object not
initialized, if and only if no option behind accepted ones has a number of 2 ^ 64 or more. -/
theorem parse_reports_iff (su : Startup) (argv : List Str) :
    Reports (({} : Configuration).parse su argv) ↔
      ∀ pre o post, getopt none argv.tail = pre ++ o :: post → (∃ c, applyOptions su {} pre = .ok c) → ¬ o.Huge := by
  obtain ⟨hok, herr⟩ := parse_parseOptions su argv
  have hhuge :
      (∀ pre o post, getopt none argv.tail = pre ++ o :: post → (∃ c, applyOptions su {} pre = .ok c) → ¬ o.Huge) ↔
      parseOptions su argv ≠ .error .uncaught := by
    rw [ne_eq, parseOptions_uncaught_iff, applyOptions_uncaught_iff]
    constructor
    · rintro h ⟨pre, o, post, he, hpre, ho⟩
      exact h pre o post he hpre ho
    · intro h pre o post he hpre ho
      exact h ⟨pre, o, post, he, hpre, ho⟩
  rw [hhuge]
  cases hp : parseOptions su argv with
  | ok cfg =>
    rw [hok cfg hp]
    exact iff_of_true ⟨true, rfl, fun h => by cases h⟩ (by simp)
  | error e =>
    obtain ⟨hend, hinit⟩ := herr e hp
    constructor
    · rintro ⟨b, hb, -⟩ he
      cases he
      rw [hend] at hb
      cases hb
    · intro he
      refine ⟨false, ?_, fun _ => hinit⟩
      rw [hend]
      cases e with
      | uncaught => exact absurd rfl he
      | message text => rfl
      | usage => rfl

/-- `-t 18446744073709551616` ends the process. -/
theorem parse_throws :
    ({} : Configuration).parse Sample.startup (Sample.argv ++ ["-t".toList, "18446744073709551616".toList]) =
      ({ config := { workdir := "/w".toList } }, .thrown .out_of_range) ∧
    ¬ Reports
      (({} : Configuration).parse Sample.startup (Sample.argv ++ ["-t".toList, "18446744073709551616".toList])) := by
  have h : ({} : Configuration).parse Sample.startup (Sample.argv ++ ["-t".toList, "18446744073709551616".toList]) =
      ({ config := { workdir := "/w".toList } }, .thrown .out_of_range) := by decide +kernel
  refine ⟨h, ?_⟩
  rintro ⟨b, hb, -⟩
  rw [h] at hb
  cases hb

end OortAgent
