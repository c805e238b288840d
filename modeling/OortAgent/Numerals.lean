import OortAgent.Config

/-!
# The numbers of the command line

`parseOptions` reads the numbers of its options with `stoul`, which skips white space, takes a sign and stops where
the digits do, and stores its 64 bits in members of 32.

- `stoul_digits`: what `stoul` makes of digits;
- `applyOptions_stored`: after all options each member has the number of the last option for it, cut to 32 bits;
- `parseOptions_meant_iff`: which accepted arguments mean what they say.
-/

namespace OortAgent

open Lib

/-! ## Digits -/

/-- A complete decimal numeral. -/
def IsNumeral (s : Str) : Prop := s ≠ [] ∧ s.all Char.isDigit = true

instance (s : Str) : Decidable (IsNumeral s) := inferInstanceAs (Decidable (_ ∧ _))

/-- The number that a text writes out. -/
def numeral (s : Str) : Option Nat := if IsNumeral s then some (digitsValue s) else none

theorem not_isSpace_of_digit {c : Char} (h : c.isDigit = true) : isSpace c = false := by
  rw [Bool.eq_false_iff]
  intro hs
  simp only [isSpace, List.contains_eq_mem, List.mem_cons, List.not_mem_nil, or_false, decide_eq_true_eq] at hs
  rcases hs with rfl | rfl | rfl | rfl | rfl | rfl <;> exact absurd h (by decide)

theorem takeSign_digit {c : Char} {r : Str} (h : c.isDigit = true) : takeSign (c :: r) = (false, 0, c :: r) := by
  unfold takeSign
  split
  · rename_i heq
    cases heq
    exact absurd h (by decide)
  · rename_i heq
    cases heq
    exact absurd h (by decide)
  · rfl

/-- The digits of a numeral are taken, up to the first character that is none. -/
theorem takeWhile_digits {ds rest : Str} (hds : ds.all Char.isDigit = true)
    (hrest : ∀ c, rest.head? = some c → c.isDigit = false) :
    (ds ++ rest).takeWhile Char.isDigit = ds := by
  induction ds with
  | nil =>
    cases rest with
    | nil => rfl
    | cons c rest => simp [hrest c rfl]
  | cons c ds ih =>
    rw [List.all_cons, Bool.and_eq_true] at hds
    rw [List.cons_append, List.takeWhile_cons, if_pos hds.1, ih hds.2]

/-- `stoul` reads a numeral up to its end. -/
theorem stoul_digits {ds rest : Str} (hds : IsNumeral ds) (hrest : ∀ c, rest.head? = some c → c.isDigit = false) :
    stoul (ds ++ rest) =
      if 18446744073709551616 ≤ digitsValue ds then .error .out_of_range else .ok (digitsValue ds, ds.length) := by
  obtain ⟨hne, hall⟩ := hds
  obtain ⟨c, ds', rfl⟩ := List.exists_cons_of_ne_nil hne
  have hc : c.isDigit = true := by
    rw [List.all_cons, Bool.and_eq_true] at hall
    exact hall.1
  have hspace : isSpace c = false := not_isSpace_of_digit hc
  have hdrop : ((c :: ds') ++ rest).dropWhile isSpace = c :: (ds' ++ rest) := by simp [hspace]
  have htake : ((c :: ds') ++ rest).takeWhile isSpace = [] := by simp [hspace]
  have hdigits : (c :: (ds' ++ rest)).takeWhile Char.isDigit = c :: ds' := takeWhile_digits hall hrest
  unfold stoul
  rw [hdrop, takeSign_digit hc, htake]
  dsimp only
  rw [hdigits, if_neg hne]
  simp

/-! ## The members -/

/-- The members that options with numbers set. -/
inductive Field
  | maxAge | cleanupInterval | minFreeMb | minFreePct | port | uavcan_node_id | shim_node_id
  deriving DecidableEq

/-- The member in a configuration. -/
def AgentConfig.get (c : AgentConfig) : Field → Int
  | .maxAge => c.maxAge
  | .cleanupInterval => c.cleanupInterval
  | .minFreeMb => c.minFreeMb
  | .minFreePct => c.minFreePct
  | .port => c.port
  | .uavcan_node_id => c.uavcan_node_id
  | .shim_node_id => c.shim_node_id

/-- The default is still to be used for the member. -/
def AgentConfig.awaits (c : AgentConfig) : Field → Bool
  | .maxAge => c.use_defaults.maxage
  | .cleanupInterval => c.use_defaults.interval
  | .minFreePct => c.use_defaults.minfree
  | .port => c.use_defaults.port
  | .shim_node_id => c.use_defaults.shim_node_id
  | _ => false

/-- The numbers that fit the member: an `int`, or an `unsigned int`. -/
def Field.limit : Field → Nat
  | .uavcan_node_id => 4294967296
  | .shim_node_id => 4294967296
  | _ => 2147483648

/-- What the member makes of a number. -/
def Field.store : Field → Nat → Int
  | .uavcan_node_id, n => (n % 4294967296 : Nat)
  | .shim_node_id, n => (n % 4294967296 : Nat)
  | _, n => wrap32 n

theorem wrap32_eq_iff {n : Nat} : wrap32 n = n ↔ n < 2147483648 := by
  constructor
  · intro h
    have := (wrap32_bounds n).2
    omega
  · intro h
    exact wrap32_of_int (by omega) (by omega)

theorem unsigned_eq_iff {n : Nat} : ((n % 4294967296 : Nat) : Int) = n ↔ n < 4294967296 := by
  rw [Int.natCast_inj]
  exact Nat.mod_eq_iff_lt (by simp)

/-- A number is stored as it is exactly if it fits. -/
theorem Field.store_eq_iff {f : Field} {n : Nat} : f.store n = n ↔ n < f.limit := by
  cases f with
  | uavcan_node_id => exact unsigned_eq_iff
  | shim_node_id => exact unsigned_eq_iff
  | _ => exact wrap32_eq_iff

/-! ## The options -/

/-- The number of an option, with the member that it is for: `none` if the option takes no number, `some none` if
its argument is not a numeral (for `-m`, one with a unit) and nothing else. -/
def Opt.number : Opt → Option (Option (Field × Nat))
  | .opt 't' arg => some ((numeral arg).map (Field.maxAge, ·))
  | .opt 'i' arg => some ((numeral arg).map (Field.cleanupInterval, ·))
  | .opt 'm' arg => some (match arg.getLast? with
    | some 'M' => (numeral arg.dropLast).map (Field.minFreeMb, ·)
    | some '%' => (numeral arg.dropLast).map (Field.minFreePct, ·)
    | _ => none)
  | .opt 'p' arg => some ((numeral arg).map (Field.port, ·))
  | .opt 'n' arg => some ((numeral arg).map (Field.uavcan_node_id, ·))
  | .opt 'N' arg => some ((numeral arg).map (Field.shim_node_id, ·))
  | _ => none

/-- Every number of the options is written out properly. -/
def WellWritten (opts : List Opt) : Prop := ∀ o ∈ opts, o.number ≠ some none

/-- The last number of the options for a member. -/
def lastNumber (f : Field) : List Opt → Option Nat
  | [] => none
  | o :: rest => (lastNumber f rest).or (match o.number with
    | some (some (g, v)) => if g = f then some v else none
    | _ => none)

/-- The options mean what they say: their numbers are written out properly, and each member has the last number for
it. -/
def Meant (opts : List Opt) (cfg : AgentConfig) : Prop :=
  WellWritten opts ∧ ∀ f v, lastNumber f opts = some v → cfg.get f = v

section Options

variable {su : Startup} {c c' : AgentConfig} {o : Opt}

/-- The member gets the value, and does not wait for its default. -/
structure Sets (c : AgentConfig) (f : Field) (x : Int) (c' : AgentConfig) : Prop where
  here : c'.get f = x
  done : c'.awaits f = false
  other : ∀ g, g ≠ f → c'.get g = c.get g
  awaits : ∀ g, c.awaits g = false → c'.awaits g = false

/-- What any other option does to them. -/
structure Skips (c c' : AgentConfig) : Prop where
  same : ∀ g, c'.get g = c.get g
  awaits : ∀ g, c.awaits g = false → c'.awaits g = false

theorem numberArg_numeral {message arg : Str} {n v : Nat} (h : numberArg message arg = .ok n)
    (hv : numeral arg = some v) : n = v := by
  unfold numeral at hv
  split at hv
  · rename_i hnum
    cases hv
    have hst : stoul (arg ++ []) = _ := stoul_digits hnum (by simp)
    rw [List.append_nil] at hst
    unfold numberArg at h
    rw [hst] at h
    split at h
    · rename_i n' pos heq
      split at heq
      · cases heq
      · cases heq
        cases h
        rfl
    · cases h
    · cases h
  · cases hv

/-- The unit of an option `-m` with a numeral is what follows the digits. -/
theorem minFreeArg_numeral {arg ds : Str} {unit : Char} (h : minFreeArg c arg = .ok c') (harg : arg = ds ++ [unit])
    (hds : IsNumeral ds) (hunit : unit.isDigit = false) :
    (unit = 'M' ∧
      c' = { c with minFreeMb := wrap32 (digitsValue ds), use_defaults := { c.use_defaults with minfree := false } }) ∨
    (unit = '%' ∧ c' = { c with minFreePct := wrap32 (digitsValue ds), use_defaults :=
      { c.use_defaults with minfree := false } }) := by
  subst harg
  have hst : stoul (ds ++ [unit]) = _ := stoul_digits hds (by simpa using hunit)
  have hat : (ds ++ [unit]).getD ds.length '\x00' = unit := by simp
  unfold minFreeArg at h
  rw [hst] at h
  split at h
  · cases h
  · cases h
  · rename_i n pos heq
    split at heq
    · cases heq
    · cases heq
      dsimp only at h
      rw [hat] at h
      split at h
      · rename_i hM
        exact .inl ⟨hM, (Except.ok.inj h).symm⟩
      · split at h
        · rename_i hP
          exact .inr ⟨hP, (Except.ok.inj h).symm⟩
        · cases h

theorem numeral_some {s : Str} {v : Nat} (h : numeral s = some v) : IsNumeral s ∧ v = digitsValue s := by
  unfold numeral at h
  split at h
  · cases h
    exact ⟨‹_›, rfl⟩
  · cases h

/-- One option: what its number sets, if it takes one. -/
def Effect (c c' : AgentConfig) : Option (Option (Field × Nat)) → Prop
  | some (some (f, v)) => Sets c f (f.store v) c'
  | some none => True
  | none => Skips c c'

/-- The members for which the value is an `int`. -/
def Field.isInt : Field → Bool
  | .uavcan_node_id => false
  | .shim_node_id => false
  | _ => true

/-- A configuration with one member changed. -/
def AgentConfig.put (c : AgentConfig) (f : Field) (x : Int) : AgentConfig := match f with
  | .maxAge => { c with maxAge := x, use_defaults := { c.use_defaults with maxage := false } }
  | .cleanupInterval => { c with cleanupInterval := x, use_defaults := { c.use_defaults with interval := false } }
  | .minFreeMb => { c with minFreeMb := x, use_defaults := { c.use_defaults with minfree := false } }
  | .minFreePct => { c with minFreePct := x, use_defaults := { c.use_defaults with minfree := false } }
  | .port => { c with port := x, use_defaults := { c.use_defaults with port := false } }
  | .uavcan_node_id => { c with uavcan_node_id := x.toNat }
  | .shim_node_id => { c with shim_node_id := x.toNat, use_defaults := { c.use_defaults with shim_node_id := false } }

theorem sets_put {f : Field} {x : Int} (hx : 0 ≤ x ∨ f.isInt = true) : Sets c f x (c.put f x) := by
  refine ⟨?_, ?_, fun g hg => ?_, fun g ha => ?_⟩
  · cases f with
    | uavcan_node_id => exact Int.toNat_of_nonneg (hx.resolve_right (by decide))
    | shim_node_id => exact Int.toNat_of_nonneg (hx.resolve_right (by decide))
    | _ => rfl
  · cases f <;> rfl
  · cases f <;> cases g <;> first | exact absurd rfl hg | rfl
  · cases f <;> cases g <;> first | rfl | exact ha

/-- An option with a plain number. -/
theorem effect_number {f : Field} {message arg : Str} (hx : ∀ v, 0 ≤ f.store v ∨ f.isInt = true)
    (h : (numberArg message arg).bind (fun n => .ok (c.put f (f.store n))) = .ok c') :
    Effect c c' (some ((numeral arg).map (f, ·))) := by
  cases hn : numberArg message arg with
  | error e =>
    rw [hn] at h
    cases h
  | ok n =>
    rw [hn] at h
    cases h
    cases hv : numeral arg with
    | none => trivial
    | some v =>
      rw [numberArg_numeral hn hv]
      exact sets_put (hx v)

/-- The option `-m`. -/
theorem effect_minFree {arg : Str} (h : minFreeArg c arg = .ok c') : Effect c c' (Opt.number (.opt 'm' arg)) := by
  have hlast : ∀ {u : Char} {v : Nat}, arg.getLast? = some u → u.isDigit = false → numeral arg.dropLast = some v →
      (u = 'M' ∧ c' = c.put .minFreeMb (wrap32 v)) ∨ (u = '%' ∧ c' = c.put .minFreePct (wrap32 v)) := by
    intro u v hu hdigit hv
    obtain ⟨hnum, rfl⟩ := numeral_some hv
    exact minFreeArg_numeral h (List.dropLast_append_getLast? u hu).symm hnum hdigit
  show Effect c c' (some (match arg.getLast? with
    | some 'M' => (numeral arg.dropLast).map (Field.minFreeMb, ·)
    | some '%' => (numeral arg.dropLast).map (Field.minFreePct, ·)
    | _ => none))
  split
  · rename_i hu
    cases hv : numeral arg.dropLast with
    | none => trivial
    | some v =>
      obtain ⟨-, rfl⟩ | ⟨hne, -⟩ := hlast hu (by decide) hv
      · exact sets_put (.inr rfl)
      · exact absurd hne (by decide)
  · rename_i hu
    cases hv : numeral arg.dropLast with
    | none => trivial
    | some v =>
      obtain ⟨hne, -⟩ | ⟨-, rfl⟩ := hlast hu (by decide) hv
      · exact absurd hne (by decide)
      · exact sets_put (.inr rfl)
  · trivial

theorem applyOption_effect (h : applyOption su c o = .ok c') : Effect c c' o.number := by
  have hskip : ∀ {d : AgentConfig}, d.get = c.get → d.awaits = c.awaits → Skips c d := fun hg ha =>
    ⟨fun g => by rw [hg], fun g hf => by rw [ha, hf]⟩
  unfold applyOption at h
  split at h
  · cases h
  · split at h
    · cases h
    · cases h
      exact hskip rfl rfl
  · exact effect_number (f := .maxAge) (fun _ => .inr rfl) h
  · exact effect_number (f := .cleanupInterval) (fun _ => .inr rfl) h
  · cases h
  · cases h
    exact hskip rfl rfl
  · exact effect_minFree h
  · exact effect_number (f := .port) (fun _ => .inr rfl) h
  · split at h
    · cases h
      exact hskip rfl rfl
    · cases h
  · cases h
    exact hskip rfl rfl
  · exact effect_number (f := .uavcan_node_id) (fun _ => .inl (Int.natCast_nonneg _)) h
  · exact effect_number (f := .shim_node_id) (fun _ => .inl (Int.natCast_nonneg _)) h
  · cases h

/-- All options: each member has the last number for it, as it is stored, and does not wait for its default; members
without a number are left alone. -/
theorem applyOptions_stored {opts : List Opt} (h : applyOptions su c opts = .ok c') (hw : WellWritten opts)
    (f : Field) :
    (∀ v, lastNumber f opts = some v → c'.get f = f.store v ∧ c'.awaits f = false) ∧
    (lastNumber f opts = none → c'.get f = c.get f) ∧ (c.awaits f = false → c'.awaits f = false) := by
  induction opts generalizing c with
  | nil =>
    cases h
    refine ⟨fun v hv => ?_, fun _ => rfl, fun ha => ha⟩
    cases hv
  | cons o rest ih =>
    unfold applyOptions at h
    cases ho : applyOption su c o with
    | error e =>
      rw [ho] at h
      cases h
    | ok c₁ =>
      rw [ho] at h
      obtain ⟨hlast, hnone, haw⟩ := ih h fun o' ho' => hw o' (List.mem_cons_of_mem _ ho')
      have heff := applyOption_effect ho
      have hwell := hw o List.mem_cons_self
      unfold lastNumber
      cases hnum : o.number with
      | none =>
        rw [hnum] at heff
        refine ⟨fun v hv => hlast v (by simpa using hv), fun hv => ?_, fun ha => haw (heff.awaits f ha)⟩
        rw [hnone (by simpa using hv), heff.same]
      | some x =>
        cases x with
        | none => exact absurd hnum hwell
        | some gv =>
          obtain ⟨g, v₀⟩ := gv
          rw [hnum] at heff
          refine ⟨fun v hv => ?_, fun hv => ?_, fun ha => haw (heff.awaits f ha)⟩
          · cases hr : lastNumber f rest with
            | some v' =>
              rw [hr, Option.some_or] at hv
              cases hv
              exact hlast v hr
            | none =>
              rw [hr, Option.none_or] at hv
              dsimp only at hv
              split at hv
              · rename_i hgf
                cases hv
                subst hgf
                exact ⟨(hnone hr).trans heff.here, haw heff.done⟩
              · cases hv
          · rw [Option.or_eq_none_iff] at hv
            rw [hnone hv.1]
            refine heff.other f fun hfg => ?_
            simp [hfg] at hv

/-- The defaults do not touch a member that does not wait for one. -/
theorem applyDefaults_get {f : Field} (h : c.awaits f = false) : c.applyDefaults.get f = c.get f := by
  cases f <;> simp_all [AgentConfig.applyDefaults, AgentConfig.get, AgentConfig.awaits]

/-- The configuration that `parseOptions` accepts has the numbers of its options. -/
theorem parseOptions_stored {argv : List Str} (h : parseOptions su argv = .ok c')
    (hw : WellWritten (getopt none argv.tail))
    {f : Field} {v : Nat} (hv : lastNumber f (getopt none argv.tail) = some v) : c'.get f = f.store v := by
  unfold parseOptions at h
  cases hc : applyOptions su {} (getopt none argv.tail) with
  | error e =>
    rw [hc] at h
    cases h
  | ok c =>
    rw [hc] at h
    simp only [bind, Except.bind] at h
    obtain ⟨hget, haw⟩ := (applyOptions_stored hc hw f).1 v hv
    split at h
    · cases h
    · split at h
      · cases h
      · cases h
        rw [applyDefaults_get haw, hget]

end Options

/-- **Numbers on the command line.** Accepted arguments mean what they say if and only if every number is written
out as a numeral (and its unit, for `-m`) with nothing else, and the last number for each member fits it: below 2 ^
31, or 2 ^ 32 for the node ids. -/
theorem parseOptions_meant_iff {su : Startup} {argv : List Str} {cfg : AgentConfig}
    (h : parseOptions su argv = .ok cfg) :
    Meant (getopt none argv.tail) cfg ↔
      WellWritten (getopt none argv.tail) ∧ ∀ f v, lastNumber f (getopt none argv.tail) = some v → v < f.limit := by
  refine and_congr_right fun hw => forall_congr' fun f => forall_congr' fun v => imp_congr_right fun hv => ?_
  rw [parseOptions_stored h hw hv]
  exact Field.store_eq_iff

/-- `-t 3600` means what it says. -/
theorem parseOptions_meant_iff_sample :
    Meant [.opt 'w' "/w".toList, .opt 't' "3600".toList]
      { Sample.config with maxAge := 3600, use_defaults := { maxage := false } } := by
  have h : parseOptions Sample.startup (Sample.argv ++ ["-t".toList, "3600".toList]) =
      .ok { Sample.config with maxAge := 3600, use_defaults := { maxage := false } } := by decide +kernel
  have hopts : getopt none (Sample.argv ++ ["-t".toList, "3600".toList]).tail =
      [.opt 'w' "/w".toList, .opt 't' "3600".toList] := by decide +kernel
  have hmeant := parseOptions_meant_iff h
  rw [hopts] at hmeant
  refine hmeant.2 ⟨fun o ho => ?_, fun f v hv => ?_⟩
  · have hall : ([.opt 'w' "/w".toList, .opt 't' "3600".toList] : List Opt).all
        (fun o => decide (o.number ≠ some none)) = true := by
      decide +kernel
    exact of_decide_eq_true (List.all_eq_true.1 hall o ho)
  · have hall :
        ([.maxAge, .cleanupInterval, .minFreeMb, .minFreePct, .port, .uavcan_node_id, .shim_node_id] : List Field).all
        (fun f => match lastNumber f [.opt 'w' "/w".toList, .opt 't' "3600".toList] with
          | some v => decide (v < f.limit)
          | none => true) = true := by decide +kernel
    have hfit := List.all_eq_true.1 hall f (by cases f <;> decide)
    rw [hv] at hfit
    exact of_decide_eq_true hfit

/-- `-t -1` and `-t 4294967297` are accepted; they set the age to -1 and 1. -/
theorem parseOptions_accepts_nonsense :
    (∃ cfg, parseOptions Sample.startup (Sample.argv ++ ["-t".toList, "-1".toList]) = .ok cfg ∧ cfg.maxAge = -1 ∧
      ¬ Meant (getopt none (Sample.argv ++ ["-t".toList, "-1".toList]).tail) cfg) ∧
    ∃ cfg, parseOptions Sample.startup (Sample.argv ++ ["-t".toList, "4294967297".toList]) = .ok cfg ∧ cfg.maxAge = 1 ∧
      ¬ Meant (getopt none (Sample.argv ++ ["-t".toList, "4294967297".toList]).tail) cfg := by
  refine ⟨⟨{ Sample.config with maxAge := -1, use_defaults := { maxage := false } }, by decide +kernel,
    rfl, fun hm => ?_⟩,
    { Sample.config with maxAge := 1, use_defaults := { maxage := false } }, by decide +kernel, rfl, fun hm => ?_⟩
  · exact hm.1 (.opt 't' "-1".toList) (by decide +kernel) (by decide +kernel)
  · have := hm.2 .maxAge 4294967297 (by decide +kernel)
    exact absurd this (by decide)

end OortAgent
