import Garnet.CommandLine

/-!
# The arguments of the command

Arguments are any texts: a directory can be called `run`, and an argument of a
program `-I`. What belongs to what is settled from the left. The arguments start
with options, each a directory for the load path (`IncludeOption`), as many of them
as possible; the rest asks for something, or for nothing that makes sense (`Asks`).

The options are determined by the arguments (`IncludeOption.begins_of_written`), and
what the rest asks for is determined by the rest (`Asks.unique`). What is read from
the arguments is just that (`arguments_are_read_exactly`).
-/

namespace Garnet

open Options (attachedDirectory?)

/-! ## Options -/

/-- **An option of the command**: a directory for the load path. -/
inductive IncludeOption where
  /-- The directory is the next argument, whatever that is. -/
  | separate (dir : String)
  /-- The directory is in the same argument. -/
  | attached (dir : String) (nonempty : dir ≠ "")

namespace IncludeOption

/-- The directory of an option. -/
def directory : IncludeOption → String
  | separate dir => dir
  | attached dir _ => dir

/-- **The arguments that an option is written in.** -/
def written : IncludeOption → List String
  | separate dir => ["-I", dir]
  | attached dir _ => ["-I" ++ dir]

/-- Whether some arguments start with an option. -/
def StartsIn (args : List String) : Prop :=
  ∃ (o : IncludeOption) (more : List String), args = o.written ++ more

variable {o o' : IncludeOption} {os os' : List IncludeOption} {args rest rest' : List String}

/-- A text that is longer than the option is not the option alone. -/
theorem attached_ne {dir : String} (h : dir ≠ "") : "-I" ++ dir ≠ "-I" :=
  fun heq => h (String.append_eq_left_iff.mp heq)

/-- **Arguments start with one option** at most. -/
theorem written_append_inj (h : o.written ++ rest = o'.written ++ rest') :
    o = o' ∧ rest = rest' := by
  cases o with
  | separate dir =>
    cases o' with
    | separate dir' =>
      obtain ⟨-, hdir⟩ := List.cons.inj h
      obtain ⟨rfl, hrest⟩ := List.cons.inj hdir
      exact ⟨rfl, hrest⟩
    | attached dir' hdir' => exact absurd (List.cons.inj h).1.symm (attached_ne hdir')
  | attached dir hdir =>
    cases o' with
    | separate dir' => exact absurd (List.cons.inj h).1 (attached_ne hdir)
    | attached dir' hdir' =>
      obtain ⟨hfirst, hrest⟩ := List.cons.inj h
      obtain rfl := (String.append_right_inj _).mp hfirst
      exact ⟨rfl, hrest⟩

/-- Arguments are options, and a rest that starts with none. -/
theorem exists_written (args : List String) :
    ∃ (os : List IncludeOption) (rest : List String),
      args = os.flatMap written ++ rest ∧ ¬ StartsIn rest := by
  by_cases h : StartsIn args
  · obtain ⟨o, more, hargs⟩ := h
    obtain ⟨os, rest, hmore, hrest⟩ := exists_written more
    exact ⟨o :: os, rest, by rw [hargs, hmore, List.flatMap_cons, List.append_assoc], hrest⟩
  · exact ⟨[], args, rfl, h⟩
termination_by args.length
decreasing_by
  rw [hargs, List.length_append]
  cases o <;> simp [written]

/-- **Options before a rest that starts with none** are as many as possible. -/
theorem begins_of_written (hrest : ¬ StartsIn rest)
    (h : os.flatMap written ++ rest = os'.flatMap written ++ rest') : os' <+: os := by
  induction os' generalizing os with
  | nil => exact List.nil_prefix
  | cons o' os' ih =>
    rw [List.flatMap_cons, List.append_assoc] at h
    cases os with
    | nil => exact absurd ⟨o', _, h⟩ hrest
    | cons o os =>
      rw [List.flatMap_cons, List.append_assoc] at h
      obtain ⟨rfl, hlater⟩ := written_append_inj h
      exact List.cons_prefix_cons.mpr ⟨rfl, ih hlater⟩

theorem attachedDirectory?_eq_some {arg dir : String} :
    attachedDirectory? arg = some dir ↔ arg = "-I" ++ dir := by
  constructor
  · intro h
    unfold attachedDirectory? at h
    split at h
    · next r hr =>
      obtain rfl := Option.some.inj h
      rw [← String.toList_inj, hr, String.toList_append]
      exact congrArg ('-' :: 'I' :: ·) String.toList_ofList.symm
    · cases h
  · rintro rfl
    unfold attachedDirectory?
    rw [String.toList_append]
    exact congrArg some String.ofList_toList

end IncludeOption

/-! ## What is asked for -/

/-- The words that ask for help. -/
def helpWords : List String :=
  ["help", "--help", "-h"]

/-- The words that ask for the version. -/
def versionWords : List String :=
  ["version", "--version", "-v"]

/-- **The words that mean something** as the first argument after options. -/
def knownWords : List String :=
  "-I" :: "irb" :: "run" :: (helpWords ++ versionWords)

/-- **A word that means nothing by itself** is an option with its directory, or no
command. -/
theorem parse_of_notMem {word : String} (h : word ∉ knownWords) (more : List String) :
    Options.parse (word :: more)
      = (attachedDirectory? word).elim (.error (.unknownCommand word)) fun dir =>
          (Options.parse more).map (Options.including dir) := by
  have hne : ∀ known ∈ knownWords, word ≠ known := fun known hknown heq => h (heq ▸ hknown)
  rw [Options.parse]
  · cases attachedDirectory? word <;> rfl
  -- none of the words that are looked for is this one
  case x_1 | x_4 => exact fun heq _ => absurd heq (hne _ (by decide))
  case x_2 | x_5 => exact fun _ _ heq _ => absurd heq (hne _ (by decide))
  all_goals exact fun heq => absurd heq (hne _ (by decide))

/-- **What the arguments after the options ask for**, or why they make no sense. -/
inductive Asks : List String → Except UsageError Command → Prop
  | nothing : Asks [] (.ok .irb)
  | irb {more : List String} : Asks ("irb" :: more) (.ok .irb)
  | run {file : String} {args : List String} : Asks ("run" :: file :: args) (.ok (.run file args))
  | help {word : String} {more : List String} (known : word ∈ helpWords) :
    Asks (word :: more) (.ok .help)
  | version {word : String} {more : List String} (known : word ∈ versionWords) :
    Asks (word :: more) (.ok .version)
  | missingDirectory : Asks ["-I"] (.error .missingDirectory)
  | missingFile : Asks ["run"] (.error .missingFile)
  | unknown {word : String} {more : List String} (unknown : word ∉ knownWords) :
    Asks (word :: more) (.error (.unknownCommand word))

namespace Asks

open IncludeOption

variable {rest : List String} {asked asked' : Except UsageError Command}

/-- **What is read from arguments without options** is what they ask for. -/
theorem parse_eq (h : Asks rest asked) (hrest : ¬ StartsIn rest) :
    Options.parse rest = asked.map fun c => ⟨[], c⟩ := by
  cases h with
  | nothing | irb | run | missingDirectory | missingFile => rfl
  | help known =>
    simp only [helpWords, List.mem_cons, List.not_mem_nil, or_false] at known
    obtain rfl | rfl | rfl := known <;> rfl
  | version known =>
    simp only [versionWords, List.mem_cons, List.not_mem_nil, or_false] at known
    obtain rfl | rfl | rfl := known <;> rfl
  | @unknown word more unknown =>
    have hdirectory : attachedDirectory? word = none := by
      refine Option.eq_none_iff_forall_ne_some.mpr fun dir hdir => ?_
      obtain rfl := attachedDirectory?_eq_some.mp hdir
      by_cases hempty : dir = ""
      · subst hempty
        exact unknown List.mem_cons_self
      · exact hrest ⟨.attached dir hempty, more, rfl⟩
    rw [parse_of_notMem unknown, hdirectory]
    rfl

/-- Arguments ask for one thing. -/
theorem unique (h : Asks rest asked) (h' : Asks rest asked') (hrest : ¬ StartsIn rest) :
    asked' = asked := by
  have hmap := (h'.parse_eq hrest).symm.trans (h.parse_eq hrest)
  cases asked <;> cases asked' <;> cases hmap <;> rfl

/-- Arguments ask for something, or make no sense. -/
theorem exists_asked (hrest : ¬ StartsIn rest) : ∃ asked, Asks rest asked := by
  cases rest with
  | nil => exact ⟨_, .nothing⟩
  | cons word more =>
    by_cases hknown : word ∈ knownWords
    · simp only [knownWords, List.mem_cons, List.mem_append] at hknown
      obtain rfl | rfl | rfl | hhelp | hversion := hknown
      · cases more with
        | nil => exact ⟨_, .missingDirectory⟩
        | cons dir more => exact absurd ⟨.separate dir, more, rfl⟩ hrest
      · exact ⟨_, .irb⟩
      · cases more with
        | nil => exact ⟨_, .missingFile⟩
        | cons file more => exact ⟨_, .run⟩
      · exact ⟨_, .help hhelp⟩
      · exact ⟨_, .version hversion⟩
    · exact ⟨_, .unknown hknown⟩

/-- **When arguments make no sense.** -/
theorem error_iff (h : Asks rest asked) (hrest : ¬ StartsIn rest) : (∃ e, asked = .error e) ↔
    rest = ["-I"] ∨ rest = ["run"] ∨ ∃ word more, rest = word :: more ∧ word ∉ knownWords := by
  constructor
  · rintro ⟨e, rfl⟩
    cases h with
    | missingDirectory => exact Or.inl rfl
    | missingFile => exact Or.inr (Or.inl rfl)
    | unknown unknown => exact Or.inr (Or.inr ⟨_, _, rfl, unknown⟩)
  · rintro (rfl | rfl | ⟨word, more, rfl, hword⟩)
    · exact ⟨_, missingDirectory.unique h hrest⟩
    · exact ⟨_, missingFile.unique h hrest⟩
    · exact ⟨_, (unknown hword).unique h hrest⟩

end Asks

/-! ## What is read -/

section Reading

open IncludeOption

/-- An option in front of other arguments. -/
theorem parse_written (o : IncludeOption) (args : List String) :
    Options.parse (o.written ++ args)
      = (Options.parse args).map (Options.including o.directory) := by
  cases o with
  | separate dir => rfl
  | attached dir hdir =>
    have hword : "-I" ++ dir ∉ knownWords := by
      intro hknown
      have hnone : ∀ word ∈ knownWords, word = "-I" ∨ attachedDirectory? word = none := by decide
      obtain halone | hnone := hnone _ hknown
      · exact attached_ne hdir halone
      · rw [attachedDirectory?_eq_some.mpr rfl] at hnone
        cases hnone
    show Options.parse (("-I" ++ dir) :: args) = _
    rw [parse_of_notMem hword, attachedDirectory?_eq_some.mpr rfl]
    rfl

/-- **Options in front of a rest**: their directories come first. -/
theorem parse_options (os : List IncludeOption) (rest : List String) :
    Options.parse (os.flatMap written ++ rest) = (Options.parse rest).map fun o =>
      { o with includeDirs := os.map directory ++ o.includeDirs } := by
  induction os with
  | nil =>
    rw [List.flatMap_nil, List.nil_append]
    cases Options.parse rest <;> rfl
  | cons o os ih =>
    rw [List.flatMap_cons, List.append_assoc, parse_written, ih]
    cases Options.parse rest <;> rfl

/-- **Arguments are read exactly.** Any arguments are options, as many of them as
possible, and a rest, which asks for one thing. What is read from the arguments is
that thing, with the directories of the options in their order; and nothing is read
from them just when the rest is an option without its directory, a `run` without its
file, or starts with a word that means nothing.

So directories, a file and arguments for it, whatever they look like, are read from
the arguments that they are written in. -/
theorem arguments_are_read_exactly :
    (∀ args : List String, ∃ (os : List IncludeOption) (rest : List String),
      args = os.flatMap written ++ rest ∧
      (∀ os' rest', args = os'.flatMap written ++ rest' → os' <+: os) ∧
      ∃ asked, (∀ asked', Asks rest asked' ↔ asked' = asked) ∧
        Options.parse args = asked.map (fun c => ⟨os.map directory, c⟩) ∧
        ((∃ e, Options.parse args = .error e) ↔ rest = ["-I"] ∨ rest = ["run"] ∨
          ∃ word more, rest = word :: more ∧ word ∉ knownWords)) ∧
    ∀ (dirs : List String) (file : String) (args : List String),
      Options.parse (dirs.flatMap (fun dir => ["-I", dir]) ++ "run" :: file :: args)
        = .ok ⟨dirs, .run file args⟩ := by
  refine ⟨fun args => ?_, fun dirs file args => ?_⟩
  · obtain ⟨os, rest, rfl, hrest⟩ := exists_written args
    obtain ⟨asked, hasked⟩ := Asks.exists_asked hrest
    have hparse : Options.parse (os.flatMap written ++ rest)
        = asked.map fun c => ⟨os.map directory, c⟩ := by
      rw [parse_options, hasked.parse_eq hrest]
      cases asked with
      | error e => rfl
      | ok c => exact congrArg (fun dirs => Except.ok (Options.mk dirs c)) (List.append_nil _)
    refine ⟨os, rest, rfl, fun os' rest' h => begins_of_written hrest h, asked,
      fun asked' => ⟨fun h => hasked.unique h hrest, fun h => h ▸ hasked⟩, hparse, ?_⟩
    rw [← hasked.error_iff hrest, hparse]
    cases asked <;> simp [Except.map]
  · have hwritten : dirs.flatMap (fun dir => ["-I", dir])
        = (dirs.map separate).flatMap written := by
      rw [List.flatMap_map]
      rfl
    have hdirs : (dirs.map separate).map directory = dirs := by
      rw [List.map_map]
      exact List.map_id dirs
    have hrun : Options.parse ("run" :: file :: args) = .ok ⟨[], .run file args⟩ := rfl
    rw [hwritten, parse_options, hrun, hdirs]
    exact congrArg (fun dirs => Except.ok (Options.mk dirs (.run file args))) (List.append_nil _)

/-- Directories, a file and an argument that look like something else. -/
theorem imitations_are_read :
    Options.parse ["-I", "run", "-I", "-I", "run", "irb", "-I"]
      = .ok ⟨["run", "-I"], .run "irb" ["-I"]⟩ :=
  arguments_are_read_exactly.2 ["run", "-I"] "irb" ["-I"]

end Reading

end Garnet
