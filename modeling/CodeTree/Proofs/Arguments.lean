import CodeTree.CommandLine.Arguments
import Mathlib.Tactic.SplitIfs

/-!
# Spelling arguments

Options that were read have a path and no switch twice (`Options.sound_of_ofArguments`). Such
options can be spelled: there are arguments that are read as them
(`Options.Sound.ofArguments_spelled`). The path stands last, behind `--`, since it may look like an
option.
-/

namespace CodeTree.CommandLine

/-- Whether options can come from arguments. -/
structure Options.Sound (options : Options) : Prop where
  path_ne_empty : options.path ≠ ""
  nodup_switches : options.switches.Nodup

namespace Reading

structure Sound (reading : Reading) : Prop where
  path_ne_empty : reading.path ≠ some ""
  nodup_switches : reading.switches.Nodup

variable {reading next : Reading}

theorem sound_start : start.Sound := ⟨by simp [start], List.nodup_nil⟩

theorem Sound.setPath {path : String} (h : reading.Sound)
    (hs : reading.setPath path = .ok next) : next.Sound := by
  rw [Reading.setPath] at hs
  split at hs
  · cases hs
  · next hok =>
    cases hs
    exact ⟨fun heq => hok (.inr (Option.some.inj heq)), h.nodup_switches⟩

theorem Sound.setLanguage {name : List Char} (h : reading.Sound)
    (hs : reading.setLanguage name = .ok next) : next.Sound := by
  rw [Reading.setLanguage] at hs
  split at hs
  · cases hs
  · cases hs
    exact ⟨h.path_ne_empty, h.nodup_switches⟩

theorem Sound.languageOption {value : Option (List Char)} (h : reading.Sound)
    (hs : reading.languageOption value = .ok next) : next.Sound := by
  cases value with
  | some name =>
    simp only [Reading.languageOption] at hs
    split at hs
    · cases hs
    · exact h.setLanguage hs
  | none =>
    simp only [Reading.languageOption] at hs
    split at hs
    · cases hs
    · cases hs
      exact ⟨h.path_ne_empty, h.nodup_switches⟩

theorem Sound.setSwitch {switch : Switch} (h : reading.Sound)
    (hs : reading.setSwitch switch = .ok next) : next.Sound := by
  rw [Reading.setSwitch] at hs
  split at hs
  · cases hs
  · next hnew =>
    cases hs
    refine ⟨h.path_ne_empty, ?_⟩
    rw [List.nodup_append]
    refine ⟨h.nodup_switches, List.pairwise_singleton _ _, fun other hother given hgiven heq => ?_⟩
    rw [List.mem_singleton.1 hgiven] at heq
    exact hnew (List.contains_iff_mem.2 (heq ▸ hother))

theorem Sound.long {text : List Char} (h : reading.Sound) (hs : reading.long text = .ok next) :
    next.Sound := by
  simp only [Reading.long] at hs
  split_ifs at hs
  · exact h.languageOption hs
  · cases hs
    exact ⟨h.path_ne_empty, h.nodup_switches⟩
  · split at hs
    · exact h.setSwitch hs
    · cases hs

theorem Sound.short {text : List Char} (h : reading.Sound) (hs : reading.short text = .ok next) :
    next.Sound := by
  fun_induction Reading.short reading text with
  | case1 => cases hs; exact h
  | case2 reading rest ih => exact ih ⟨h.path_ne_empty, h.nodup_switches⟩ hs
  | case3 => cases hs
  | case4 => cases hs
  | case5 => exact h.languageOption hs
  | case6 => exact h.languageOption hs
  | case7 => exact h.languageOption hs
  | case8 => cases hs

theorem Sound.step {argument : String} (h : reading.Sound)
    (hs : reading.step argument = .ok next) : next.Sound := by
  rw [Reading.step] at hs
  split at hs
  · exact h.setPath hs
  · split at hs
    · split at hs
      · cases hs
      · exact h.setLanguage hs
    · split at hs
      · cases hs
        exact ⟨h.path_ne_empty, h.nodup_switches⟩
      · exact h.long hs
      · exact h.short hs
      · exact h.setPath hs

theorem Sound.run {arguments : List String} (h : reading.Sound)
    (hs : arguments.foldlM Reading.step reading = .ok next) : next.Sound := by
  induction arguments generalizing reading with
  | nil => cases hs; exact h
  | cons argument rest ih =>
    rw [List.foldlM_cons] at hs
    cases hstep : reading.step argument with
    | error halt => rw [hstep] at hs; cases hs
    | ok between =>
      rw [hstep] at hs
      exact ih (h.step hstep) hs

theorem Sound.finish {options : Options} (h : reading.Sound)
    (hs : reading.finish = .ok options) : options.Sound := by
  rw [Reading.finish] at hs
  split at hs
  · next path hpath =>
    split at hs
    · cases hs
    · cases hs
      exact ⟨fun heq => h.path_ne_empty (hpath.trans (congrArg some heq)), h.nodup_switches⟩
  · cases hs

end Reading

theorem Options.sound_of_ofArguments {arguments : List String} {options : Options}
    (h : Options.ofArguments arguments = .ok options) : options.Sound := by
  rw [Options.ofArguments] at h
  cases hrun : arguments.foldlM Reading.step Reading.start with
  | error halt => rw [hrun] at h; cases h
  | ok reading =>
    rw [hrun] at h
    exact (Reading.sound_start.run hrun).finish h

def Options.spelled (options : Options) : List String :=
  options.language.toList.map ("--language=" ++ ·.name) ++ options.switches.map ("--" ++ ·.text) ++
    List.replicate options.verbosity "-v" ++ ["--", options.path]

namespace Reading

theorem read_append {first second : List String} {reading between next : Reading}
    (hfirst : first.foldlM step reading = .ok between)
    (hsecond : second.foldlM step between = .ok next) :
    (first ++ second).foldlM step reading = .ok next := by
  rw [List.foldlM_append, hfirst]
  exact hsecond

variable (language : Option Language) (switches : List Switch) (verbosity : Nat)

def beforePath : Reading := ⟨none, language, switches, verbosity, false, false⟩

theorem step_language (given : Language) :
    (beforePath none switches verbosity).step ("--language=" ++ given.name) =
      .ok (beforePath (some given) switches verbosity) := by
  cases given <;> rfl

theorem step_switch (switch : Switch) :
    (beforePath language switches verbosity).step ("--" ++ switch.text) =
      (beforePath language switches verbosity).setSwitch switch := by
  cases switch <;> rfl

theorem read_switches {given : List Switch} (h : (switches ++ given).Nodup) :
    (given.map ("--" ++ ·.text)).foldlM step (beforePath language switches verbosity) =
      .ok (beforePath language (switches ++ given) verbosity) := by
  induction given generalizing switches with
  | nil => rw [List.append_nil]; rfl
  | cons switch rest ih =>
    rw [List.append_cons] at h ⊢
    have hnew : switch ∉ switches := fun hmem =>
      (List.nodup_append.1 (List.nodup_append.1 h).1).2.2 switch hmem switch (by simp) rfl
    have hset : (beforePath language switches verbosity).setSwitch switch =
        .ok (beforePath language (switches ++ [switch]) verbosity) := by
      rw [setSwitch, if_neg (by simpa [beforePath] using hnew)]
      rfl
    rw [List.map_cons, List.foldlM_cons, step_switch, hset]
    exact ih (switches ++ [switch]) h

theorem read_verbosity (more : Nat) :
    (List.replicate more "-v").foldlM step (beforePath language switches verbosity) =
      .ok (beforePath language switches (verbosity + more)) := by
  induction more generalizing verbosity with
  | zero => rfl
  | succ more ih =>
    rw [List.replicate_succ, List.foldlM_cons, Nat.add_comm more 1, ← Nat.add_assoc]
    exact ih (verbosity + 1)

theorem read_path {path : String} (h : path ≠ "") :
    ["--", path].foldlM step (beforePath language switches verbosity) =
      .ok ⟨some path, language, switches, verbosity, false, true⟩ := by
  have hset : (⟨none, language, switches, verbosity, false, true⟩ : Reading).setPath path =
      .ok ⟨some path, language, switches, verbosity, false, true⟩ := by
    rw [setPath, if_neg (by simpa using h)]
  exact congrArg (· >>= pure) hset

end Reading

/-- Spelled options are read again. -/
theorem Options.Sound.ofArguments_spelled {options : Options} (h : options.Sound) :
    Options.ofArguments options.spelled = .ok options := by
  have hlanguage : (options.language.toList.map ("--language=" ++ ·.name)).foldlM Reading.step
      Reading.start = .ok (Reading.beforePath options.language [] 0) := by
    cases options.language with
    | none => rfl
    | some language => exact congrArg (· >>= pure) (Reading.step_language [] 0 language)
  have hswitches := Reading.read_switches options.language [] 0
    (by rw [List.nil_append]; exact h.nodup_switches)
  have hverbosity := Reading.read_verbosity options.language options.switches 0 options.verbosity
  have hpath := Reading.read_path options.language options.switches options.verbosity
    h.path_ne_empty
  rw [Nat.zero_add] at hverbosity
  have hread := Reading.read_append
    (Reading.read_append (Reading.read_append hlanguage hswitches) hverbosity) hpath
  rw [Options.ofArguments, Options.spelled, hread]
  rfl

end CodeTree.CommandLine
