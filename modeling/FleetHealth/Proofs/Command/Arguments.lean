import FleetHealth.Command
import FleetHealth.Proofs.Text.Reader

/-!
Well-formed arguments.

An option is set by an argument that names it, with its value in the next argument or joined to the
name (`Setting`). Where each option is set at most once and a path is told (`Told`), the command
reads the options that are told (`readOptions_of_told`).
-/

namespace FleetHealth.Command

open FleetHealth.Text

deriving instance DecidableEq for Flag

/-- The long name of an option. -/
def Flag.name : Flag → String
  | .fleetFile => "fleet-file"
  | .target => "target-name"

/-- How an option is set to a value. -/
inductive Setting (flag : Flag) (value : String) : List String → Prop
  | apart (fits : isValue value = true) : Setting flag value ["--" ++ flag.name, value]
  | joined : Setting flag value ["--" ++ flag.name ++ "=" ++ value]

/-- The arguments set these options, one after the other, and may end with two hyphens. -/
inductive Sets : List (Flag × String) → List String → Prop
  | nothing : Sets [] []
  | hyphens : Sets [] ["--"]
  | option {flag : Flag} {value : String} {settings : List (Flag × String)}
    {arguments more : List String} (setting : Setting flag value arguments)
    (others : Sets settings more) : Sets ((flag, value) :: settings) (arguments ++ more)

/-- The arguments are well formed, and tell the command this path and this name of a target: an
argument goes before the environment, and the target has a default. -/
structure Told (s : Surroundings) (path name : String) : Prop where
  told : ∃ settings, Sets settings s.arguments ∧ (settings.map Prod.fst).Nodup ∧
    (settings.lookup .fleetFile).or (s.environment "FLEET_FILE") = some path ∧
    ((settings.lookup .target).or (s.environment "FLEET_TARGET_NAME")).getD
      "platform-operators-aggregated" = name
  path : path ≠ ""

/-- What is given for an option. -/
def Given.value (g : Given) : Flag → Option String
  | .fleetFile => g.fleetFile
  | .target => g.target

section

variable {flag : Flag} {value : String} {g : Given} {settings : List (Flag × String)}
  {arguments more : List String}

theorem Flag.ofName?_name (flag : Flag) : Flag.ofName? flag.name.toList = some flag := by
  cases flag <;> decide

/-- An option that has not been given takes any value that is not empty. -/
theorem Given.add_of_value (new : g.value flag = none) (value : String)
    (path : flag = .fleetFile → value ≠ "") : ∃ g', g.add flag value = some g' ∧
      ∀ other, g'.value other = (g.value other).or (if other = flag then some value else none) := by
  cases flag with
  | fleetFile =>
    have new : g.fleetFile = none := new
    refine ⟨{ g with fleetFile := some value }, ?_, ?_⟩
    · simp [Given.add, new, path rfl]
    · rintro (_ | _) <;> simp [Given.value, new]
  | target =>
    have new : g.target = none := new
    refine ⟨{ g with target := some value }, ?_, ?_⟩
    · simp [Given.add, new]
    · rintro (_ | _) <;> simp [Given.value, new]

theorem Flag.name_ne_nil (flag : Flag) : flag.name.toList ≠ [] := by
  cases flag <;> decide

/-- Names of options have no sign of equality. -/
theorem Flag.plain_name (flag : Flag) : ∀ c ∈ flag.name.toList, (c != '=') = true := by
  have plain : flag.name.toList.all (· != '=') = true := by cases flag <;> rfl
  exact List.all_eq_true.1 plain

theorem readArguments_joined {argument : String} {value : List Char} {g' : Given}
    (spelled : argument.toList = '-' :: '-' :: (flag.name.toList ++ '=' :: value))
    (noted : g.add flag (String.ofList value) = some g') (more : List String) :
    readArguments g (argument :: more) = readArguments g' more := by
  have stops : Stops (· != '=') ('=' :: value) := .cons rfl
  have name := stops.takeWhile_append flag.plain_name
  have rest := stops.dropWhile_append flag.plain_name
  have nonempty : flag.name.toList ++ '=' :: value ≠ [] := by simp
  obtain ⟨c, cs, long⟩ := List.exists_cons_of_ne_nil nonempty
  rw [long] at spelled name rest
  rw [readArguments]
  simp only [spelled, name, rest, flag.ofName?_name, noted]

theorem readArguments_apart {argument value : String} {g' : Given}
    (spelled : argument.toList = '-' :: '-' :: flag.name.toList) (fits : isValue value = true)
    (noted : g.add flag value = some g') (more : List String) :
    readArguments g (argument :: value :: more) = readArguments g' more := by
  have name := Stops.nil.takeWhile_append flag.plain_name
  have rest := Stops.nil.dropWhile_append flag.plain_name
  rw [List.append_nil] at name rest
  obtain ⟨c, cs, long⟩ := List.exists_cons_of_ne_nil flag.name_ne_nil
  have known := flag.ofName?_name
  rw [long] at spelled name rest known
  rw [readArguments]
  simp only [spelled, name, rest, known, fits, noted, if_true]

/-- A setting is noted, and the reading goes on. -/
theorem readArguments_setting {g' : Given} (setting : Setting flag value arguments)
    (noted : g.add flag value = some g') (more : List String) :
    readArguments g (arguments ++ more) = readArguments g' more := by
  cases setting with
  | apart fits =>
    refine readArguments_apart ?_ fits noted more
    simp
  | joined =>
    have spelled : ("--" ++ flag.name ++ "=" ++ value).toList =
        '-' :: '-' :: (flag.name.toList ++ '=' :: value.toList) := by simp
    exact readArguments_joined spelled (by rwa [String.ofList_toList]) more

theorem lookup_of_mem (once : (settings.map Prod.fst).Nodup) (set : (flag, value) ∈ settings) :
    settings.lookup flag = some value := by
  obtain ⟨before, after, rfl⟩ := List.append_of_mem set
  refine List.lookup_eq_some_iff.2 ⟨before, after, rfl, fun setting hs => ?_⟩
  simp only [List.map_append, List.map_cons, List.nodup_append, List.mem_map] at once
  simpa using (once.2.2 setting.1 ⟨setting, hs, rfl⟩ flag List.mem_cons_self).symm

/-- Options that are set once each are read as they are set. -/
theorem readArguments_sets (sets : Sets settings arguments)
    (once : (settings.map Prod.fst).Nodup)
    (path : ∀ value, (Flag.fleetFile, value) ∈ settings → value ≠ "")
    (new : ∀ setting ∈ settings, g.value setting.1 = none) :
    ∃ g', readArguments g arguments = .ok g' ∧
      ∀ flag, g'.value flag = (g.value flag).or (settings.lookup flag) := by
  induction sets generalizing g with
  | nothing => exact ⟨g, by rw [readArguments], by simp⟩
  | hyphens => exact ⟨g, by simp [readArguments], by simp⟩
  | @option flag value settings arguments more setting others ih =>
    obtain ⟨only, once⟩ := List.nodup_cons.1 once
    have first := new (flag, value) List.mem_cons_self
    obtain ⟨g', noted, values⟩ := Given.add_of_value first value fun same =>
      path value (same ▸ List.mem_cons_self)
    have new' : ∀ setting ∈ settings, g'.value setting.1 = none := by
      intro setting hs
      have other : setting.1 ≠ flag := fun same => only (List.mem_map.2 ⟨setting, hs, same⟩)
      rw [values, new setting (List.mem_cons_of_mem _ hs), if_neg other]
      rfl
    obtain ⟨g'', read, values'⟩ :=
      ih once (fun value hv => path value (List.mem_cons_of_mem _ hv)) new'
    refine ⟨g'', (readArguments_setting setting noted more).trans read, fun other => ?_⟩
    rw [values', values, List.lookup_cons]
    by_cases same : other = flag
    · subst same
      simp [first]
    · have apart : (other == flag) = false := beq_eq_false_iff_ne.2 same
      rw [if_neg same, apart, Option.or_none]

end

/-- The command reads what it is told. -/
theorem readOptions_of_told {s : Surroundings} {path name : String} (h : Told s path name) :
    readOptions s = .ok ⟨path, name⟩ := by
  obtain ⟨⟨settings, sets, once, file, target⟩, pathNonempty⟩ := h
  have nonempty : ∀ value, (Flag.fleetFile, value) ∈ settings → value ≠ "" := by
    intro value set
    rw [lookup_of_mem once set, Option.some_or] at file
    exact Option.some.inj file ▸ pathNonempty
  obtain ⟨g, read, values⟩ :=
    readArguments_sets (g := ⟨none, none⟩) sets once nonempty fun setting _ => by
      cases setting.1 <;> rfl
  have file' : g.fleetFile = settings.lookup .fleetFile := values .fleetFile
  have target' : g.target = settings.lookup .target := values .target
  have path' : path.isEmpty = false := by simpa using pathNonempty
  rw [readOptions, read]
  simp only [file', target', file, path', Bool.false_eq_true, if_false]
  rw [← target]
  rfl

end FleetHealth.Command
