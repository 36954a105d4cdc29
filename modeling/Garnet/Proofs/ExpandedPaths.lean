import Garnet.Proofs.PathParts

/-!
# Expanded paths

A path is expanded by putting texts together – the working directory, a base
directory, the path itself – and going through the pieces of the whole. What comes
out can be said without putting texts together: each of them is a sequence of steps
(`Path.steps`), and the steps of all of them, one sequence after the other, lead from
the root to a place (`Path.destination`).

A place is a list of proper names (`Path.IsPlace`), so its path is in normal form
(`Path.IsNormal`), and the steps of that path lead to the place again from anywhere.
-/

namespace Garnet

namespace Path

/-! ## Steps -/

/-- **A step** on a path. -/
inductive Step where
  /-- To the root. -/
  | root
  /-- To the directory above; the root is above itself. -/
  | parent
  /-- To a name in the directory. -/
  | name (n : List Char)

/-- Where a step leads from a place. -/
def Step.after (place : List (List Char)) : Step → List (List Char)
  | root => []
  | parent => place.dropLast
  | name n => place ++ [n]

/-- The step that a component is; an empty one and `.` are none. -/
def Step.ofComponent? (c : List Char) : Option Step :=
  if c = [] ∨ c = ['.'] then none
  else if c = ['.', '.'] then some parent
  else some (name c)

/-- The steps of the components of a text, wherever they start. -/
def relativeSteps (p : List Char) : List Step :=
  (p.splitOn '/').filterMap Step.ofComponent?

/-- **The steps of a path**, which start at the root if the path is absolute. -/
def steps (p : List Char) : List Step :=
  if p.head? = some '/' then .root :: relativeSteps p else relativeSteps p

/-- Where some steps lead from a place. -/
def walk (place : List (List Char)) (ss : List Step) : List (List Char) :=
  ss.foldl Step.after place

/-- **Whether a path starts in the home directory.** -/
def StartsAtHome (p : List Char) : Prop :=
  p = ['~'] ∨ ['~', '/'] <+: p

instance (p : List Char) : Decidable (StartsAtHome p) :=
  inferInstanceAs (Decidable (_ ∨ _))

/-- **The steps of a path that can start in the home directory**, which are there if
the home directory is, or is not needed. -/
def stepsAtHome (home : Option String) (p : List Char) : Option (List Step) :=
  if StartsAtHome p then home.map fun h => steps h.toList ++ relativeSteps p.tail
  else some (steps p)

/-- **Where some parts lead** from a directory: through the steps of the directory, and
those of one part after the other. -/
def destination (cwd : List Char) (home : Option String) (parts : List (List Char)) :
    Option (List (List Char)) :=
  (parts.mapM (stepsAtHome home)).map fun ss => walk [] (steps cwd ++ ss.flatten)

section Steps

variable {p dir : List Char} {place : List (List Char)}

theorem walk_append (place : List (List Char)) (ss ts : List Step) :
    walk place (ss ++ ts) = walk (walk place ss) ts :=
  List.foldl_append

/-- The pieces of a text are its components. -/
theorem pieces_eq_splitOn (p : List Char) : pieces p = p.splitOn '/' := by
  induction p with
  | nil => rfl
  | cons c p ih =>
    rw [pieces, List.splitOn_cons_eq_if_modifyHead, ih]
    have hne := List.splitOn_ne_nil '/' p
    cases hsplit : p.splitOn '/' with
    | nil => exact absurd hsplit hne
    | cons q qs => rfl

/-- **Following components** is walking along their steps. -/
theorem follow_eq (place : List (List Char)) (cs : List (List Char)) :
    follow place cs = walk place (cs.filterMap Step.ofComponent?) := by
  induction cs generalizing place with
  | nil => rfl
  | cons c cs ih =>
    rw [follow, List.filterMap_cons, Step.ofComponent?]
    split
    · exact ih place
    · split
      · exact ih _
      · exact ih _

theorem follow_pieces (place : List (List Char)) (p : List Char) :
    follow place (pieces p) = walk place (relativeSteps p) := by
  rw [follow_eq, pieces_eq_splitOn, relativeSteps]

/-- Components in front of a separator, and those behind it. -/
theorem relativeSteps_append (p q : List Char) :
    relativeSteps (p ++ '/' :: q) = relativeSteps p ++ relativeSteps q := by
  rw [relativeSteps, List.splitOn_append_cons_self, List.filterMap_append]
  rfl

theorem relativeSteps_dropWhile (p : List Char) :
    relativeSteps (p.dropWhile isSeparator) = relativeSteps p := by
  induction p with
  | nil => rfl
  | cons c p ih =>
    by_cases hc : c = '/'
    · subst hc
      exact ih.trans (relativeSteps_append [] p).symm
    · rw [List.dropWhile_cons_of_neg (by simpa [isSeparator_iff] using hc)]

theorem walk_root (place : List (List Char)) (h : p.head? = some '/') :
    walk place (steps p) = walk [] (relativeSteps p) := by
  rw [steps, if_pos h]
  rfl

theorem steps_of_relative (h : p.head? ≠ some '/') : steps p = relativeSteps p :=
  if_neg h

/-- From the root it does not matter whether a path is absolute. -/
theorem walk_nil_steps (p : List Char) : walk [] (steps p) = walk [] (relativeSteps p) := by
  by_cases h : p.head? = some '/'
  · exact walk_root [] h
  · rw [steps_of_relative h]

/-- The steps of a text that goes on. -/
theorem steps_append {q : List Char} {ss : List Step} (hdir : dir ≠ [])
    (h : relativeSteps (dir ++ q) = relativeSteps dir ++ ss) :
    steps (dir ++ q) = steps dir ++ ss := by
  have hhead : (dir ++ q).head? = dir.head? := List.head?_append_of_ne_nil dir hdir
  unfold steps
  rw [hhead, h]
  split <;> rfl

/-- **A path seen from a directory** leads where its steps lead from the directory. -/
theorem walk_within (place : List (List Char)) (dir p : List Char) :
    walk place (steps (within dir p)) = walk (walk place (steps dir)) (steps p) := by
  unfold within
  by_cases hroot : p.head? = some '/'
  · rw [if_pos (by simp [hroot]), walk_root _ hroot, walk_root _ hroot]
  · by_cases hdir : dir = []
    · subst hdir
      rw [if_pos (by simp)]
      rfl
    · rw [if_neg (by simp [hroot, hdir]), steps_of_relative hroot, ← walk_append]
      -- a separator is put between the two texts, or is there
      split
      · next hlast =>
        obtain ⟨front, rfl⟩ := List.getLast?_eq_some_iff.mp hlast
        rw [steps_append hdir]
        rw [List.append_assoc, List.singleton_append, relativeSteps_append, relativeSteps_append]
        exact congrArg (· ++ _) (List.append_nil _).symm
      · rw [steps_append hdir (relativeSteps_append dir p)]

end Steps

/-! ## The home directory -/

section Home

variable {home : Option String} {p : List Char}

theorem expandHome_of_startsAtHome (h : StartsAtHome p) (home : Option String) :
    expandHome home p
      = home.map fun h => within h.toList (p.tail.dropWhile isSeparator) := by
  obtain rfl | ⟨r, rfl⟩ := h <;> rfl

theorem expandHome_of_not (h : ¬ StartsAtHome p) (home : Option String) :
    expandHome home p = some p := by
  unfold expandHome
  split
  · next r =>
    refine if_neg fun hr => h ?_
    rw [Bool.or_eq_true, List.isEmpty_iff, decide_eq_true_iff] at hr
    obtain rfl | hr := hr
    · exact Or.inl rfl
    · obtain ⟨r', rfl⟩ := List.head?_eq_some_iff.mp hr
      exact Or.inr ⟨r', rfl⟩
  · rfl

/-- **A path in the home directory** leads where its steps lead. -/
theorem exists_expandHome (home : Option String) (p : List Char) :
    (expandHome home p = none ∧ stepsAtHome home p = none) ∨
      ∃ q ss, expandHome home p = some q ∧ stepsAtHome home p = some ss ∧
        ∀ place, walk place (steps q) = walk place ss := by
  by_cases h : StartsAtHome p
  · rw [expandHome_of_startsAtHome h, stepsAtHome, if_pos h]
    cases home with
    | none => exact Or.inl ⟨rfl, rfl⟩
    | some h =>
      refine Or.inr ⟨_, _, rfl, rfl, fun place => ?_⟩
      have hrelative : (p.tail.dropWhile isSeparator).head? ≠ some '/' := by
        intro hhead
        have hnot := List.head?_dropWhile_not isSeparator p.tail
        rw [hhead] at hnot
        cases hnot
      rw [walk_within, steps_of_relative hrelative, relativeSteps_dropWhile, walk_append]
  · rw [expandHome_of_not h, stepsAtHome, if_neg h]
    exact Or.inr ⟨_, _, rfl, rfl, fun _ => rfl⟩

/-- **Where no path leads** without a home directory. -/
theorem stepsAtHome_eq_none_iff : stepsAtHome home p = none ↔ home = none ∧ StartsAtHome p := by
  unfold stepsAtHome
  split
  · next h => simp [h]
  · next h => simp [h]

theorem exists_of_mapM_eq_none {parts : List (List Char)}
    (h : parts.mapM (stepsAtHome home) = none) : ∃ q ∈ parts, stepsAtHome home q = none := by
  induction parts with
  | nil => cases h
  | cons q parts ih =>
    rw [List.mapM_cons] at h
    cases hq : stepsAtHome home q with
    | none => exact ⟨q, List.mem_cons_self, hq⟩
    | some ss =>
      cases hparts : parts.mapM (stepsAtHome home) with
      | none =>
        obtain ⟨q', hq', hnone⟩ := ih hparts
        exact ⟨q', List.mem_cons_of_mem q hq', hnone⟩
      | some sss =>
        rw [hq, hparts] at h
        cases h

/-- **Where no parts lead**: one of them starts in the home directory, and there is none. -/
theorem startsAtHome_of_destination_eq_none {cwd : List Char} {parts : List (List Char)}
    (h : destination cwd home parts = none) : home = none ∧ ∃ q ∈ parts, StartsAtHome q := by
  obtain ⟨q, hmem, hq⟩ := exists_of_mapM_eq_none (Option.map_eq_none_iff.mp h)
  obtain ⟨hhome, hstarts⟩ := stepsAtHome_eq_none_iff.mp hq
  exact ⟨hhome, q, hmem, hstarts⟩

/-- **Expanding a path** gives the path of the place where its parts lead. -/
theorem expand_eq (cwd : List Char) (home : Option String) (base : Option (List Char))
    (p : List Char) :
    expand cwd home base p = (destination cwd home (base.toList ++ [p])).map absolute := by
  have hwalk : ∀ dir q, follow [] (pieces (within dir q))
      = walk (walk [] (steps dir)) (steps q) := by
    intro dir q
    rw [follow_pieces, ← walk_nil_steps, walk_within]
  cases base with
  | none =>
    have hexpand : expand cwd home none p = (expandHome home p).map fun q =>
        absolute (walk (walk [] (steps cwd)) (steps q)) := by
      unfold expand
      simp only [hwalk]
      cases expandHome home p <;> rfl
    rw [hexpand, destination]
    obtain ⟨hq, hss⟩ | ⟨q, ss, hq, hss, hsteps⟩ := exists_expandHome home p
    · simp [hq, hss]
    · simp [hq, hss, hsteps, walk_append]
  | some b =>
    have hexpand : expand cwd home (some b) p = (expandHome home b).bind fun b' =>
        (expandHome home p).map fun q =>
          absolute (walk (walk (walk [] (steps cwd)) (steps b')) (steps q)) := by
      unfold expand
      simp only [hwalk]
      cases expandHome home b with
      | none => rfl
      | some b' =>
        cases expandHome home p with
        | none => rfl
        | some q =>
          exact congrArg (fun place => some (absolute (walk place (steps q))))
            (walk_within [] cwd b')
    rw [hexpand, destination]
    obtain ⟨hb, hbs⟩ | ⟨b', bs, hb, hbs, hbsteps⟩ := exists_expandHome home b
    · simp [hb, hbs]
    · obtain ⟨hq, hss⟩ | ⟨q, ss, hq, hss, hsteps⟩ := exists_expandHome home p
      · simp [hb, hbs, hq, hss]
      · simp [hb, hbs, hq, hss, hbsteps, hsteps, walk_append]

end Home

/-! ## Normal forms -/

/-- **Whether a text is a proper name**: it is not empty, `.` or `..`, and does not go
over more than one component. -/
structure IsName (n : List Char) : Prop where
  ne_nil : n ≠ []
  ne_here : n ≠ ['.']
  ne_parent : n ≠ ['.', '.']
  separator_notMem : '/' ∉ n

/-- **Whether a list of names is a place.** -/
def IsPlace (place : List (List Char)) : Prop :=
  ∀ n ∈ place, IsName n

/-- Whether a step that goes to a name goes to a proper one. -/
def Step.IsProper : Step → Prop
  | root | parent => True
  | name n => IsName n

/-- **Whether a path is in normal form**: it is absolute, and, unless it is the root, it
has no component that is empty, `.` or `..`, and no separator at its end. -/
structure IsNormal (p : List Char) : Prop where
  root : p.head? = some '/'
  components : p ≠ ['/'] → ∀ c ∈ p.tail.splitOn '/', c ≠ [] ∧ c ≠ ['.'] ∧ c ≠ ['.', '.']
  last : p ≠ ['/'] → p.getLast? ≠ some '/'

section Places

variable {place : List (List Char)} {ss : List Step} {p : List Char}

/-- **A proper step** leads from a place to a place. -/
theorem IsPlace.after (h : IsPlace place) {s : Step} (hs : s.IsProper) :
    IsPlace (s.after place) := by
  cases s with
  | root => exact fun _ hn => absurd hn List.not_mem_nil
  | parent => exact fun n hn => h n (List.dropLast_subset _ hn)
  | name n =>
    intro m hm
    obtain hm | hm := List.mem_append.mp hm
    · exact h m hm
    · exact List.mem_singleton.mp hm ▸ hs

/-- **Proper steps** lead from a place to a place. -/
theorem IsPlace.walk (h : IsPlace place) (hss : ∀ s ∈ ss, s.IsProper) :
    IsPlace (walk place ss) := by
  induction ss generalizing place with
  | nil => exact h
  | cons s ss ih =>
    rw [List.forall_mem_cons] at hss
    exact ih (h.after hss.1) hss.2

/-- A component does not go over a separator. -/
theorem separator_notMem_of_mem_splitOn {c : List Char} (h : c ∈ p.splitOn '/') : '/' ∉ c := by
  induction p generalizing c with
  | nil =>
    obtain rfl := List.mem_singleton.mp h
    exact List.not_mem_nil
  | cons d p ih =>
    rw [List.splitOn_cons_eq_if_modifyHead] at h
    split at h
    · obtain rfl | h := List.mem_cons.mp h
      · exact List.not_mem_nil
      · exact ih h
    · next hd =>
      cases hsplit : p.splitOn '/' with
      | nil => exact absurd hsplit (List.splitOn_ne_nil '/' p)
      | cons q qs =>
        rw [hsplit, List.modifyHead_cons] at h
        rw [hsplit] at ih
        obtain rfl | h := List.mem_cons.mp h
        · intro hmem
          obtain heq | hmem := List.mem_cons.mp hmem
          · exact hd (beq_iff_eq.mpr heq.symm)
          · exact ih List.mem_cons_self hmem
        · exact ih (List.mem_cons_of_mem _ h)

theorem ofComponent?_of_isName {n : List Char} (h : IsName n) :
    Step.ofComponent? n = some (.name n) := by
  rw [Step.ofComponent?, if_neg (not_or.mpr ⟨h.ne_nil, h.ne_here⟩), if_neg h.ne_parent]

theorem isProper_of_mem_relativeSteps {s : Step} (h : s ∈ relativeSteps p) : s.IsProper := by
  obtain ⟨c, hc, hs⟩ := List.mem_filterMap.mp h
  unfold Step.ofComponent? at hs
  split at hs
  · cases hs
  · next hempty =>
    obtain ⟨hnil, hhere⟩ := not_or.mp hempty
    split at hs
    · cases hs
      trivial
    · next hparent =>
      cases hs
      exact ⟨hnil, hhere, hparent, separator_notMem_of_mem_splitOn hc⟩

theorem isProper_of_mem_steps {s : Step} (h : s ∈ steps p) : s.IsProper := by
  unfold steps at h
  split at h
  · obtain rfl | h := List.mem_cons.mp h
    · trivial
    · exact isProper_of_mem_relativeSteps h
  · exact isProper_of_mem_relativeSteps h

theorem isProper_of_mem_stepsAtHome {home : Option String} (hss : stepsAtHome home p = some ss)
    {s : Step} (h : s ∈ ss) : s.IsProper := by
  unfold stepsAtHome at hss
  split at hss
  · obtain ⟨dir, -, rfl⟩ := Option.map_eq_some_iff.mp hss
    obtain h | h := List.mem_append.mp h
    · exact isProper_of_mem_steps h
    · exact isProper_of_mem_relativeSteps h
  · cases hss
    exact isProper_of_mem_steps h

theorem exists_stepsAtHome_of_mapM {home : Option String} {parts : List (List Char)}
    {sss : List (List Step)} (h : parts.mapM (stepsAtHome home) = some sss) :
    ∀ ss ∈ sss, ∃ p, stepsAtHome home p = some ss := by
  induction parts generalizing sss with
  | nil =>
    cases h
    exact fun _ hss => absurd hss List.not_mem_nil
  | cons p parts ih =>
    rw [List.mapM_cons] at h
    obtain ⟨ss, hp, hrest⟩ := Option.bind_eq_some_iff.mp h
    obtain ⟨tss, hparts, heq⟩ := Option.bind_eq_some_iff.mp hrest
    cases heq
    exact List.forall_mem_cons.mpr ⟨⟨p, hp⟩, ih hparts⟩

/-- **Parts lead to places.** -/
theorem isPlace_destination {cwd : List Char} {home : Option String} {parts : List (List Char)}
    (h : destination cwd home parts = some place) : IsPlace place := by
  obtain ⟨sss, hsss, rfl⟩ := Option.map_eq_some_iff.mp h
  refine IsPlace.walk (fun _ hn => absurd hn List.not_mem_nil) fun s hs => ?_
  obtain hs | hs := List.mem_append.mp hs
  · exact isProper_of_mem_steps hs
  · obtain ⟨ss, hss, hs⟩ := List.mem_flatten.mp hs
    obtain ⟨p, hp⟩ := exists_stepsAtHome_of_mapM hsss ss hss
    exact isProper_of_mem_stepsAtHome hp hs

/-- The path of a place is that of its names with separators between them. -/
theorem absolute_eq (place : List (List Char)) :
    absolute place = '/' :: ['/'].intercalate place := by
  induction place with
  | nil => rfl
  | cons n place ih =>
    cases place with
    | nil => simp [absolute]
    | cons m place =>
      show '/' :: (n ++ absolute (m :: place)) = _
      rw [ih, List.intercalate_cons_cons, List.append_assoc]
      rfl

/-- **The path of a place is in normal form.** -/
theorem isNormal_absolute (h : IsPlace place) : IsNormal (absolute place) := by
  rw [absolute_eq]
  have hcomponents : '/' :: ['/'].intercalate place ≠ ['/'] →
      (['/'].intercalate place).splitOn '/' = place := by
    intro hne
    refine List.splitOn_intercalate '/' (fun n hn => (h n hn).separator_notMem) ?_
    rintro rfl
    exact hne rfl
  refine ⟨rfl, fun hne c hc => ?_, fun hne hlast => ?_⟩
  · rw [List.tail_cons, hcomponents hne] at hc
    exact ⟨(h c hc).ne_nil, (h c hc).ne_here, (h c hc).ne_parent⟩
  · obtain ⟨before, hbefore⟩ := List.getLast?_eq_some_iff.mp hlast
    cases before with
    | nil => exact hne hbefore
    | cons c before =>
      -- a separator at the end would have an empty component behind it
      have hnames : ['/'].intercalate place = before ++ ['/'] := (List.cons.inj hbefore).2
      have hempty : [] ∈ place := by
        rw [← hcomponents hne, hnames, List.splitOn_append_cons_self]
        exact List.mem_append_right _ (List.mem_singleton_self _)
      exact (h [] hempty).ne_nil rfl

/-- Walking along names. -/
theorem walk_names (start place : List (List Char)) :
    walk start (place.map .name) = start ++ place := by
  induction place generalizing start with
  | nil => exact (List.append_nil start).symm
  | cons n place ih =>
    show walk (start ++ [n]) (place.map .name) = _
    rw [ih, List.append_assoc]
    rfl

/-- **The path of a place leads to it** from anywhere. -/
theorem walk_absolute (h : IsPlace place) (start : List (List Char)) :
    walk start (steps (absolute place)) = place := by
  have hsteps : relativeSteps (absolute place) = place.map .name := by
    have hseparator : relativeSteps (absolute place) = relativeSteps (['/'].intercalate place) := by
      rw [absolute_eq]
      exact relativeSteps_append [] _
    rw [hseparator]
    cases place with
    | nil => rfl
    | cons n place =>
      rw [relativeSteps, List.splitOn_intercalate '/' (fun n hn => (h n hn).separator_notMem)
        (List.cons_ne_nil n place)]
      exact List.filterMap_eq_map_iff_forall_eq_some.mpr fun n hn =>
        ofComponent?_of_isName (h n hn)
  rw [walk_root start (by rw [absolute_eq]; rfl), hsteps, walk_names]
  rfl

/-- The last of some parts leads on from where the others lead. -/
theorem destination_concat {cwd : List Char} {home : Option String} {q : List Char}
    (hq : stepsAtHome home q = some ss) (parts : List (List Char)) :
    destination cwd home (parts ++ [q]) = (destination cwd home parts).map (Path.walk · ss) := by
  unfold destination
  rw [List.mapM_append]
  cases parts.mapM (stepsAtHome home) with
  | none => rfl
  | some sss => simp [hq, walk_append]

/-- **Other parts do not matter** in front of the path of a place. -/
theorem destination_absolute (h : IsPlace place) (cwd : List Char) (home : Option String)
    (parts : List (List Char)) :
    destination cwd home (parts ++ [absolute place])
      = (destination cwd home parts).map fun _ => place := by
  have hsteps : stepsAtHome home (absolute place) = some (steps (absolute place)) := by
    refine if_neg ?_
    rw [absolute_eq]
    rintro (heq | ⟨_, heq⟩) <;> cases heq
  rw [destination_concat hsteps]
  exact congrArg (Option.map · _) (funext (walk_absolute h))

end Places

end Path

/-! ## The operation -/

section Operation

open Interpreter Garnet.Path

variable {host : Host} {base : Option (List Char)} {p : List Char} {args : List Value}

/-- Where a path leads from the working directory of a host, and from a base directory. -/
def Host.destination (host : Host) (base : Option (List Char)) (p : List Char) :
    Option (List (List Char)) :=
  Path.destination host.files.cwdPath.toList host.home (base.toList ++ [p])

theorem call_expandPath (hargs : args.map text?
      = (p :: base.toList).map fun t => some (String.ofList t)) (s : Interpreter) :
    FileMethod.expandPath.call host args s =
      match host.destination base p with
      | some place => newString (String.ofList (absolute place)) s
      | none => raise (.runtime "ArgumentError: couldn't find HOME environment") s := by
  have hcall : FileMethod.expandPath.call host args s
      = expandedPath host (base.map String.ofList) (String.ofList p) s := by
    obtain ⟨id, rest, rfl, hrest⟩ := exists_string_cons hargs
    cases base with
    | none =>
      obtain rfl := List.map_eq_nil_iff.mp hrest
      rfl
    | some b =>
      obtain ⟨id', rest', rfl, hrest'⟩ := exists_string_cons hrest
      obtain rfl := List.map_eq_nil_iff.mp hrest'
      rfl
  have htexts : (base.map String.ofList).map String.toList = base := by
    cases base with
    | none => rfl
    | some b => exact congrArg some String.toList_ofList
  rw [hcall, expandedPath, htexts, String.toList_ofList, expand_eq, ← Host.destination]
  cases host.destination base p <;> rfl

/-- **What expanding a path gives** is the path of the place where it leads. -/
theorem gives_expandPath_iff (host : Host) (base : Option (List Char)) (p r : List Char) :
    FileMethod.expandPath.Gives host (p :: base.toList) r ↔
      ∃ place, host.destination base p = some place ∧ r = absolute place := by
  constructor
  · intro h
    obtain ⟨args, hargs⟩ := exists_strings (p :: base.toList)
    have hcall := (call_expandPath hargs (start "" [] [])).symm.trans (h args hargs _)
    cases hplace : host.destination base p with
    | none =>
      rw [hplace] at hcall
      cases hcall
    | some place =>
      have hplaced : FileMethod.expandPath.Gives host (p :: base.toList) (absolute place) := by
        intro args hargs s
        rw [call_expandPath hargs, hplace]
      exact ⟨place, rfl, hplaced.unique h⟩
  · rintro ⟨place, hplace, rfl⟩ args hargs s
    rw [call_expandPath hargs, hplace]

/-- **Paths expand to normal forms.** What expanding a path gives is absolute, and has
no empty component, no `.`, no `..` and no separator at the end, unless it is the root.
It is the path of the place where the steps of the working directory, of the base
directory and of the path lead, one after the other from the root. Expanded again,
from whatever base directory, it stays as it is.

Expanding a path gives something unless the path or the base directory starts in the
home directory and there is none, which is an error. -/
theorem paths_expand_to_normal_forms (host : Host) (base : Option (List Char)) (p : List Char) :
    (∀ r, FileMethod.expandPath.Gives host (p :: base.toList) r →
      IsNormal r ∧
      (∃ place, host.destination base p = some place ∧ r = '/' :: ['/'].intercalate place) ∧
      FileMethod.expandPath.Gives host [r] r ∧
      ∀ base' r', FileMethod.expandPath.Gives host [r, base'] r' → r' = r) ∧
    ((∃ r, FileMethod.expandPath.Gives host (p :: base.toList) r) ∨
      host.home = none ∧ (∃ q ∈ base.toList ++ [p], StartsAtHome q) ∧
      ∀ args, args.map text? = (p :: base.toList).map (fun t => some (String.ofList t)) →
        ∀ s, FileMethod.expandPath.call host args s
          = raise (.runtime "ArgumentError: couldn't find HOME environment") s) := by
  constructor
  · intro r hr
    obtain ⟨place, hplace, rfl⟩ := (gives_expandPath_iff host base p r).mp hr
    have hnames : IsPlace place := isPlace_destination hplace
    refine ⟨isNormal_absolute hnames, ⟨place, hplace, absolute_eq place⟩, ?_, ?_⟩
    · exact (gives_expandPath_iff host none _ _).mpr
        ⟨place, destination_absolute hnames _ _ [], rfl⟩
    · intro base' r' hr'
      obtain ⟨place', hplace', rfl⟩ := (gives_expandPath_iff host (some base') _ r').mp hr'
      rw [Host.destination, destination_absolute hnames] at hplace'
      obtain ⟨_, -, rfl⟩ := Option.map_eq_some_iff.mp hplace'
      rfl
  · cases hplace : host.destination base p with
    | some place =>
      exact Or.inl ⟨_, (gives_expandPath_iff host base p _).mpr ⟨place, hplace, rfl⟩⟩
    | none =>
      obtain ⟨hhome, hstarts⟩ := startsAtHome_of_destination_eq_none hplace
      refine Or.inr ⟨hhome, hstarts, fun args hargs s => ?_⟩
      rw [call_expandPath hargs, hplace]

/-- Parts that go over each other, from a base directory that starts in the home
directory. -/
theorem parts_go_over_each_other :
    let host : Host := ⟨FileSystem.empty ["srv", "app"], some "/home/u", 1⟩
    FileMethod.expandPath.Gives host ["../.././lib//x/..".toList, "~/a".toList] "/home/lib".toList ∧
      IsNormal "/home/lib".toList ∧
      FileMethod.expandPath.Gives host ["/home/lib".toList] "/home/lib".toList := by
  intro host
  have hgives : FileMethod.expandPath.Gives host
      ["../.././lib//x/..".toList, "~/a".toList] "/home/lib".toList :=
    (gives_expandPath_iff host (some "~/a".toList) "../.././lib//x/..".toList _).mpr
      ⟨["home".toList, "lib".toList], by decide, by decide⟩
  obtain ⟨hnormal, -, hagain, -⟩ :=
    (paths_expand_to_normal_forms host (some "~/a".toList) "../.././lib//x/..".toList).1 _ hgives
  exact ⟨hgives, hnormal, hagain⟩

end Operation

end Garnet
