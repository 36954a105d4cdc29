import Garnet.Interpreter.Loading
import Garnet.Interpreter.Methods.File
import Garnet.Interpreter.Start
import Garnet.Proofs.Outcomes
import Mathlib.Data.List.DropRight

/-!
# Paths joined and taken apart

Paths are joined with one separator at every seam, whatever separators the parts
begin or end with. A part of separators alone leaves nothing but a seam, so joining
is associative (`Path.joinTwo_assoc`), and parts can be joined group by group.

A path with a name in it is made up of a front, separators, its last name, and
separators that do not count (`Path.Parts`). The directory and the last name of a
path are read off these parts, and joined again they are the path with one separator
between them.

What the operations on paths return for strings with certain texts is what they
*give* for these texts (`FileMethod.Gives`); `paths_are_regrouped_and_taken_apart`
says of it what the lemmas say of the texts.
-/

namespace Garnet

/-! ## What the operations give -/

section Operations

open Interpreter

variable {host : Host} {m : FileMethod}

/-- **Whether an operation on paths gives a text** for some texts: called with strings
of these texts it returns a new string of that text, and does nothing else. -/
def FileMethod.Gives (host : Host) (m : FileMethod) (texts : List (List Char))
    (result : List Char) : Prop :=
  ∀ args, args.map text? = texts.map (fun t => some (String.ofList t)) →
    ∀ s, m.call host args s = newString (String.ofList result) s

theorem exists_strings (texts : List (List Char)) :
    ∃ args : List Value, args.map text? = texts.map fun t => some (String.ofList t) :=
  ⟨texts.map fun t => .string 0 (String.ofList t), List.map_map⟩

/-- An operation gives one text. -/
theorem FileMethod.Gives.unique {texts : List (List Char)} {result result' : List Char}
    (h : m.Gives host texts result) (h' : m.Gives host texts result') : result' = result := by
  obtain ⟨args, hargs⟩ := exists_strings texts
  have hcall := (h args hargs (start "" [] [])).symm.trans (h' args hargs _)
  injection hcall with hvalue
  injection hvalue with _ htext
  exact (String.ofList_injective htext).symm

/-- The first of some arguments with certain texts is a string of the first text. -/
theorem exists_string_cons {args : List Value} {t : List Char} {texts : List (List Char)}
    (h : args.map text? = (t :: texts).map fun t => some (String.ofList t)) :
    ∃ id rest, args = .string id (String.ofList t) :: rest ∧
      rest.map text? = texts.map fun t => some (String.ofList t) := by
  obtain ⟨v, rest, rfl, hv, hrest⟩ := List.map_eq_cons_iff.mp h
  cases v with
  | string id text =>
    cases hv
    exact ⟨id, rest, rfl, hrest⟩
  | _ => cases hv

theorem mapM_stringArgument {args : List Value} {texts : List (List Char)}
    (h : args.map text? = texts.map fun t => some (String.ofList t)) (s : Interpreter) :
    args.mapM stringArgument s = .ok (texts.map String.ofList) s := by
  induction texts generalizing args with
  | nil =>
    obtain rfl : args = [] := List.map_eq_nil_iff.mp h
    rfl
  | cons t texts ih =>
    obtain ⟨id, rest, rfl, hrest⟩ := exists_string_cons h
    rw [List.mapM_cons]
    exact Outcome.bind_of_ok (ih hrest)

/-- Joining gives the texts joined. -/
theorem gives_join (host : Host) (texts : List (List Char)) :
    FileMethod.join.Gives host texts (Path.join texts) := by
  intro args hargs s
  refine (Outcome.bind_of_ok (mapM_stringArgument hargs s)).trans ?_
  rw [List.map_map]
  refine congrFun (congrArg (fun ts => newString (String.ofList (Path.join ts))) ?_) s
  exact (List.map_congr_left fun t _ => String.toList_ofList).trans (List.map_id texts)

theorem gives_dirname (host : Host) (p : List Char) :
    FileMethod.dirname.Gives host [p] (Path.dirname p) := by
  intro args hargs s
  obtain ⟨id, rest, rfl, hrest⟩ := exists_string_cons hargs
  obtain rfl := List.map_eq_nil_iff.mp hrest
  show newString (String.ofList (Path.dirname (String.ofList p).toList)) s = _
  rw [String.toList_ofList]

theorem gives_basename (host : Host) (p : List Char) :
    FileMethod.basename.Gives host [p] (Path.basename p) := by
  intro args hargs s
  obtain ⟨id, rest, rfl, hrest⟩ := exists_string_cons hargs
  obtain rfl := List.map_eq_nil_iff.mp hrest
  show newString (String.ofList (Path.basename (String.ofList p).toList)) s = _
  rw [String.toList_ofList]

theorem gives_basenameWithout (host : Host) (p suffix : List Char) :
    FileMethod.basename.Gives host [p, suffix] (Path.basenameWithout p suffix) := by
  intro args hargs s
  obtain ⟨id, rest, rfl, hrest⟩ := exists_string_cons hargs
  obtain ⟨id', rest', rfl, hrest'⟩ := exists_string_cons hrest
  obtain rfl := List.map_eq_nil_iff.mp hrest'
  show newString (String.ofList (Path.basenameWithout (String.ofList p).toList
    (String.ofList suffix).toList)) s = _
  rw [String.toList_ofList, String.toList_ofList]

end Operations

/-! ## Joining -/

namespace Path

variable {p q : List Char}

theorem isSeparator_iff {c : Char} : isSeparator c = true ↔ c = '/' :=
  beq_iff_eq

/-- What stands behind a text is trimmed before the text is. -/
theorem trimEnd_append (p q : List Char) :
    trimEnd (p ++ q) = if trimEnd q = [] then trimEnd p else p ++ trimEnd q := by
  unfold trimEnd Text.dropEndWhile
  rw [List.reverse_append, List.dropWhile_append]
  by_cases hq : q.reverse.dropWhile isSeparator = []
  · rw [hq]
    rfl
  · rw [if_neg (by simpa using hq), if_neg (by simpa using hq), List.reverse_append,
      List.reverse_reverse]

theorem trimEnd_trimEnd (p : List Char) : trimEnd (trimEnd p) = trimEnd p :=
  List.rdropWhile_idempotent isSeparator p

theorem trimEnd_eq_nil_iff : trimEnd p = [] ↔ ∀ c ∈ p, isSeparator c = true :=
  List.rdropWhile_eq_nil_iff

theorem getLast?_trimEnd (p : List Char) : (trimEnd p).getLast? ≠ some '/' := by
  intro hlast
  have hne : trimEnd p ≠ [] := by
    intro hnil
    rw [hnil] at hlast
    cases hlast
  rw [List.getLast?_eq_some_getLast hne] at hlast
  exact List.rdropWhile_last_not isSeparator p hne (isSeparator_iff.mpr (Option.some.inj hlast))

/-- What is trimmed consists of separators. -/
theorem exists_trimEnd (p : List Char) : ∃ n, trimEnd p ++ List.replicate n '/' = p := by
  have htrimmed : p.rtakeWhile isSeparator
      = List.replicate (p.rtakeWhile isSeparator).length '/' :=
    List.eq_replicate_of_mem fun c hc => isSeparator_iff.mp (List.mem_rtakeWhile_imp hc)
  refine ⟨(p.rtakeWhile isSeparator).length, ?_⟩
  rw [← htrimmed]
  exact List.rdropWhile_append_rtakeWhile

/-- **The two ends of a text** are trimmed in either order. -/
theorem trimEnd_dropWhile (p : List Char) :
    trimEnd (p.dropWhile isSeparator) = (trimEnd p).dropWhile isSeparator := by
  induction p with
  | nil => rfl
  | cons c p ih =>
    have hcons : trimEnd (c :: p) = if trimEnd p = [] then trimEnd [c] else c :: trimEnd p :=
      trimEnd_append [c] p
    rw [hcons]
    cases hc : isSeparator c with
    | true =>
      rw [List.dropWhile_cons_of_pos hc, ih]
      split
      · next hp =>
        rw [hp, trimEnd_eq_nil_iff.mpr (by simpa using hc)]
      · rw [List.dropWhile_cons_of_pos hc]
    | false =>
      rw [List.dropWhile_cons_of_neg (by simp [hc]), hcons]
      split
      · have hone : trimEnd [c] = [c] := by
          unfold trimEnd Text.dropEndWhile
          simp [hc]
        rw [hone, List.dropWhile_cons_of_neg (by simp [hc])]
      · rw [List.dropWhile_cons_of_neg (by simp [hc])]

/-- **Joining is associative**, also where the middle part consists of separators. -/
theorem joinTwo_assoc (p q r : List Char) :
    joinTwo (joinTwo p q) r = joinTwo p (joinTwo q r) := by
  unfold joinTwo
  by_cases hq : ∀ c ∈ q, isSeparator c = true
  · have hstart : q.dropWhile isSeparator = [] := List.dropWhile_eq_nil_iff.mpr hq
    have hseam : trimEnd ['/'] = [] := rfl
    rw [hstart, trimEnd_eq_nil_iff.mpr hq, trimEnd_append, if_pos hseam, trimEnd_trimEnd,
      List.nil_append, List.dropWhile_cons_of_pos rfl, List.dropWhile_idempotent]
  · have hne : trimEnd (q.dropWhile isSeparator) ≠ [] := by
      intro hnil
      refine hq fun c hc => ?_
      rw [← List.takeWhile_append_dropWhile (p := isSeparator) (l := q), List.mem_append] at hc
      exact hc.elim List.mem_takeWhile_imp (trimEnd_eq_nil_iff.mp hnil c)
    have hseam : trimEnd ('/' :: q.dropWhile isSeparator)
        = '/' :: trimEnd (q.dropWhile isSeparator) :=
      (trimEnd_append ['/'] _).trans (if_neg hne)
    rw [trimEnd_append, hseam, if_neg (List.cons_ne_nil _ _), List.dropWhile_append,
      ← trimEnd_dropWhile, if_neg (by simpa using hne), List.append_assoc]
    rfl

instance : Std.Associative joinTwo := ⟨joinTwo_assoc⟩

/-- **Parts are joined group by group.** -/
theorem join_append {ps qs : List (List Char)} (hps : ps ≠ []) (hqs : qs ≠ []) :
    join (ps ++ qs) = join [join ps, join qs] := by
  cases ps with
  | nil => exact absurd rfl hps
  | cons p ps =>
    cases qs with
    | nil => exact absurd rfl hqs
    | cons q qs =>
      show (ps ++ q :: qs).foldl joinTwo p = joinTwo (ps.foldl joinTwo p) (qs.foldl joinTwo q)
      rw [List.foldl_append, List.foldl_cons, List.foldl_assoc]

/-! ## Taking apart -/

/-- **The parts of a path** with a name in it. -/
structure Parts where
  /-- What stands before the last name, without the separators after it. -/
  front : List Char
  /-- How many separators stand before the last name. -/
  separators : Nat
  /-- The last name. -/
  name : List Char
  /-- How many separators stand at the end. -/
  trailing : Nat
  front_last : front.getLast? ≠ some '/'
  name_ne_nil : name ≠ []
  separator_notMem : '/' ∉ name
  /-- The last name can be all there is. -/
  front_eq_nil : separators = 0 → front = []

namespace Parts

variable (x : Parts)

/-- The path without the separators at its end. -/
def trimmed : List Char :=
  x.front ++ (List.replicate x.separators '/' ++ x.name)

/-- The path. -/
def path : List Char :=
  x.trimmed ++ List.replicate x.trailing '/'

theorem isSeparator_of_mem_replicate {n : Nat} {c : Char} (h : c ∈ List.replicate n '/') :
    isSeparator c = true :=
  isSeparator_iff.mpr (List.eq_of_mem_replicate h)

theorem trimEnd_front : trimEnd x.front = x.front := by
  refine List.rdropWhile_eq_self_iff.mpr fun hne hlast => x.front_last ?_
  rw [List.getLast?_eq_some_getLast hne, isSeparator_iff.mp hlast]

theorem trimEnd_name : trimEnd x.name = x.name :=
  List.rdropWhile_eq_self_iff.mpr fun _ hlast =>
    x.separator_notMem (isSeparator_iff.mp hlast ▸ List.getLast_mem _)

theorem trimEnd_path : trimEnd x.path = x.trimmed := by
  have htrailing : trimEnd (List.replicate x.trailing '/') = [] :=
    trimEnd_eq_nil_iff.mpr fun _ => isSeparator_of_mem_replicate
  rw [path, trimEnd_append, if_pos htrailing, trimmed, ← List.append_assoc, trimEnd_append,
    trimEnd_name, if_neg x.name_ne_nil]

theorem trimmed_ne_nil : x.trimmed ≠ [] := by
  intro h
  exact x.name_ne_nil (List.append_eq_nil_iff.mp (List.append_eq_nil_iff.mp h).2).2

theorem separator_mem_trimmed_iff : '/' ∈ x.trimmed ↔ 0 < x.separators := by
  rw [trimmed, List.mem_append, List.mem_append, List.mem_replicate]
  constructor
  · rintro (hfront | ⟨hne, -⟩ | hname)
    · refine Nat.pos_of_ne_zero fun hzero => ?_
      rw [x.front_eq_nil hzero] at hfront
      cases hfront
    · exact Nat.pos_of_ne_zero hne
    · exact absurd hname x.separator_notMem
  · exact fun hpos => Or.inr (Or.inl ⟨hpos.ne', rfl⟩)

theorem lastName_trimmed : lastName x.trimmed = x.name := by
  have hname : ∀ c ∈ x.name.reverse, (!isSeparator c) = true := by
    intro c hc
    refine (Bool.not_eq_true' _).mpr (Bool.eq_false_iff.mpr fun hseparator => ?_)
    exact x.separator_notMem (isSeparator_iff.mp hseparator ▸ List.mem_reverse.mp hc)
  have hbefore : (x.front ++ List.replicate x.separators '/').reverse.takeWhile
      (!isSeparator ·) = [] := by
    cases hcount : x.separators with
    | zero =>
      rw [x.front_eq_nil hcount]
      rfl
    | succ n =>
      rw [List.replicate_succ', ← List.append_assoc, List.reverse_append]
      exact List.takeWhile_cons_of_neg (by decide)
  rw [lastName, trimmed, ← List.append_assoc, List.reverse_append,
    List.takeWhile_append_of_pos hname, hbefore, List.append_nil, List.reverse_reverse]

/-- **The last name of a path** is the last of its parts. -/
theorem basename_path : basename x.path = x.name := by
  rw [basename, trimEnd_path, if_neg (by simpa using x.trimmed_ne_nil), lastName_trimmed]

theorem basenameWithout_path (suffix : List Char) :
    basenameWithout x.path suffix = withoutSuffix x.name suffix := by
  rw [basenameWithout, trimEnd_path, if_neg (by simpa using x.trimmed_ne_nil), lastName_trimmed]

/-- **The directory of a path** is its front, or the root where nothing but separators
stands before its last name. -/
theorem dirname_path : dirname x.path =
    if x.separators = 0 then ['.'] else if x.front = [] then ['/'] else x.front := by
  have hany : x.trimmed.any isSeparator = decide (0 < x.separators) := by
    rw [Bool.eq_iff_iff, decide_eq_true_iff, ← x.separator_mem_trimmed_iff, List.any_eq_true]
    exact ⟨fun ⟨c, hc, hseparator⟩ => isSeparator_iff.mp hseparator ▸ hc, fun h => ⟨'/', h, rfl⟩⟩
  have hbefore : x.trimmed.take (x.trimmed.length - x.name.length)
      = x.front ++ List.replicate x.separators '/' := by
    rw [trimmed, ← List.append_assoc, List.length_append, Nat.add_sub_cancel, List.take_left]
  have hfront : trimEnd (x.front ++ List.replicate x.separators '/') = x.front := by
    rw [trimEnd_append, if_pos (trimEnd_eq_nil_iff.mpr fun _ => isSeparator_of_mem_replicate),
      trimEnd_front]
  unfold dirname
  simp only [trimEnd_path, lastName_trimmed, hany, hbefore, hfront]
  rw [if_neg (by simpa using x.trimmed_ne_nil)]
  by_cases hzero : x.separators = 0
  · rw [if_pos (by simp [hzero]), if_pos hzero]
  · rw [if_neg (by simpa using hzero), if_neg hzero]
    cases x.front <;> rfl

/-- **A directory and a last name** joined again. -/
theorem join_dirname (h : 0 < x.separators) :
    join [dirname x.path, x.name] = x.front ++ '/' :: x.name := by
  have hname : x.name.dropWhile isSeparator = x.name :=
    List.dropWhile_eq_self_iff.mpr fun _ hfirst =>
      x.separator_notMem (isSeparator_iff.mp hfirst ▸ List.getElem_mem _)
  have hdir : trimEnd (dirname x.path) = x.front := by
    rw [dirname_path, if_neg h.ne']
    split
    · next hnil => exact hnil.symm
    · exact x.trimEnd_front
  show joinTwo (dirname x.path) x.name = _
  rw [joinTwo, hdir, hname]

end Parts

/-- **A path with a name in it has parts.** -/
theorem exists_parts (h : ∃ c ∈ p, c ≠ '/') : ∃ x : Parts, x.path = p := by
  have hne : trimEnd p ≠ [] := by
    obtain ⟨c, hc, hname⟩ := h
    exact fun hnil => hname (isSeparator_iff.mp (trimEnd_eq_nil_iff.mp hnil c hc))
  -- what stands before the last name, with the separators after it
  let before := (trimEnd p).rdropWhile (!isSeparator ·)
  let name := (trimEnd p).rtakeWhile (!isSeparator ·)
  have htrimmed : before ++ name = trimEnd p := List.rdropWhile_append_rtakeWhile
  obtain ⟨trailing, hp⟩ := exists_trimEnd p
  obtain ⟨separators, hbefore⟩ := exists_trimEnd before
  have hname : name ≠ [] := by
    intro hnil
    have hlast := List.rtakeWhile_eq_nil_iff.mp hnil hne
    have hseparator : ¬ isSeparator ((trimEnd p).getLast hne) = true :=
      List.rdropWhile_last_not isSeparator p hne
    exact hlast (by simpa using hseparator)
  have hseparator : '/' ∉ name := by
    intro hmem
    cases List.mem_rtakeWhile_imp hmem
  have hfront : separators = 0 → trimEnd before = [] := by
    rintro rfl
    have htrim : trimEnd before = before := (List.append_nil _).symm.trans hbefore
    by_contra hne'
    rw [htrim] at hne'
    have hlast : isSeparator (before.getLast hne') = true := by
      simpa using List.rdropWhile_last_not (!isSeparator ·) (trimEnd p) hne'
    refine getLast?_trimEnd before ?_
    rw [htrim, List.getLast?_eq_some_getLast hne', isSeparator_iff.mp hlast]
  refine ⟨⟨trimEnd before, separators, name, trailing, getLast?_trimEnd before, hname, hseparator,
    hfront⟩, ?_⟩
  show trimEnd before ++ (List.replicate separators '/' ++ name) ++ List.replicate trailing '/' = p
  rw [← List.append_assoc, hbefore, htrimmed, hp]

/-! ## Suffixes -/

/-- What is left of a name without its extension, and the extension. -/
theorem exists_extension {name : List Char} (h : name ≠ []) :
    ∃ rest, name = withoutExtension name ++ rest ∧ withoutExtension name ≠ [] ∧
      (rest = [] ∨ ∃ ext, rest = '.' :: ext ∧ '.' ∉ ext) := by
  unfold withoutExtension
  split
  · next d c r hdrop =>
    have hdot : d = '.' := by
      have hhead := List.head?_dropWhile_not (· != '.') name.reverse
      rw [hdrop] at hhead
      simpa using hhead
    have hsplit : name.reverse = name.reverse.takeWhile (· != '.') ++ d :: c :: r := by
      rw [← hdrop, List.takeWhile_append_dropWhile]
    refine ⟨'.' :: (name.reverse.takeWhile (· != '.')).reverse, ?_, by simp, Or.inr ⟨_, rfl, ?_⟩⟩
    · have hname := congrArg List.reverse hsplit
      rw [List.reverse_reverse, hdot, List.reverse_append, List.reverse_cons,
        List.append_assoc] at hname
      exact hname
    · intro hmem
      have hne := List.mem_takeWhile_imp (List.mem_reverse.mp hmem)
      cases hne
  · exact ⟨[], (List.append_nil _).symm, h, Or.inl rfl⟩

/-- **What is left of a name without a suffix** is there, and what is taken off it is
nothing, the suffix, or the extension. -/
theorem exists_suffix {name : List Char} (h : name ≠ []) (suffix : List Char) :
    ∃ rest, name = withoutSuffix name suffix ++ rest ∧ withoutSuffix name suffix ≠ [] ∧
      (rest = [] ∨ rest = suffix ∨
        suffix = ['.', '*'] ∧ ∃ ext, rest = '.' :: ext ∧ '.' ∉ ext) := by
  unfold withoutSuffix
  by_cases hany : suffix = ['.', '*']
  · rw [if_pos hany]
    obtain ⟨rest, hname, hne, hrest⟩ := exists_extension h
    exact ⟨rest, hname, hne, hrest.imp_right fun hext => Or.inr ⟨hany, hext⟩⟩
  · rw [if_neg hany]
    by_cases hwhole : name = suffix
    · rw [if_pos hwhole]
      exact ⟨[], (List.append_nil _).symm, h, Or.inl rfl⟩
    · rw [if_neg hwhole]
      by_cases hsuffix : suffix.isSuffixOf name = true
      · obtain ⟨kept, rfl⟩ := List.isSuffixOf_iff_suffix.mp hsuffix
        rw [if_pos hsuffix, List.length_append, Nat.add_sub_cancel, List.take_left]
        refine ⟨suffix, rfl, ?_, Or.inr (Or.inl rfl)⟩
        rintro rfl
        exact hwhole rfl
      · rw [if_neg hsuffix]
        exact ⟨[], (List.append_nil _).symm, h, Or.inl rfl⟩

end Path

/-! ## The operations -/

open Garnet.Path

/-- **Paths are regrouped, and taken apart.** Joining some parts and joining others,
and then what this gives, gives what joining all of them gives.

Take a path that does not consist of separators, and what is left of it without the
separators at its end. Its last name is not empty, has no separator, and is the last
component of that. If there is no separator left, the directory is `.`; otherwise the
directory joined with the last name is the path with one separator between them,
instead of any number. And a suffix leaves a beginning of the last name that is not
empty; what it takes away is nothing, the suffix itself, or for `.*` the extension
from the last dot on. -/
theorem paths_are_regrouped_and_taken_apart (host : Host) :
    (∀ ps qs, ps ≠ [] → qs ≠ [] → ∃ a b c, FileMethod.join.Gives host ps a ∧
      FileMethod.join.Gives host qs b ∧ FileMethod.join.Gives host [a, b] c ∧
      FileMethod.join.Gives host (ps ++ qs) c) ∧
    ∀ p, (∃ c ∈ p, c ≠ '/') → ∃ trimmed n base dir,
      p = trimmed ++ List.replicate n '/' ∧ trimmed.getLast? ≠ some '/' ∧
      FileMethod.basename.Gives host [p] base ∧ FileMethod.dirname.Gives host [p] dir ∧
      base ≠ [] ∧ '/' ∉ base ∧
      ('/' ∉ trimmed → base = trimmed ∧ dir = ['.']) ∧
      ('/' ∈ trimmed → ∃ front k,
        trimmed = front ++ (List.replicate (k + 1) '/' ++ base) ∧ front.getLast? ≠ some '/' ∧
        FileMethod.join.Gives host [dir, base] (front ++ '/' :: base)) ∧
      ∀ suffix, ∃ kept rest, FileMethod.basename.Gives host [p, suffix] kept ∧
        base = kept ++ rest ∧ kept ≠ [] ∧ (rest = [] ∨ rest = suffix ∨
          suffix = ['.', '*'] ∧ ∃ ext, rest = '.' :: ext ∧ '.' ∉ ext) := by
  refine ⟨fun ps qs hps hqs => ?_, fun p hp => ?_⟩
  · have hall := gives_join host (ps ++ qs)
    rw [join_append hps hqs] at hall
    exact ⟨_, _, _, gives_join host ps, gives_join host qs, gives_join host _, hall⟩
  · obtain ⟨x, rfl⟩ := exists_parts hp
    refine ⟨x.trimmed, x.trailing, x.name, dirname x.path, rfl, ?_, x.basename_path ▸
      gives_basename host x.path, gives_dirname host x.path, x.name_ne_nil, x.separator_notMem,
      fun h => ?_, fun h => ?_, fun suffix => ?_⟩
    · exact x.trimEnd_path ▸ getLast?_trimEnd x.path
    · rw [x.separator_mem_trimmed_iff] at h
      have hzero : x.separators = 0 := Nat.eq_zero_of_not_pos h
      rw [x.dirname_path, if_pos hzero, Parts.trimmed, hzero, x.front_eq_nil hzero]
      exact ⟨rfl, rfl⟩
    · have hpos := x.separator_mem_trimmed_iff.mp h
      refine ⟨x.front, x.separators - 1, ?_, x.front_last, ?_⟩
      · rw [Nat.sub_add_cancel hpos]
        rfl
      · rw [← x.join_dirname hpos]
        exact gives_join host _
    · obtain ⟨rest, hname, hne, hrest⟩ := exists_suffix x.name_ne_nil suffix
      rw [← x.basenameWithout_path] at hname hne
      exact ⟨_, rest, gives_basenameWithout host x.path suffix, hname, hne, hrest⟩

/-- Parts of separators alone, and a path with separators in every place. -/
theorem runs_of_separators_are_merged :
    let host : Host := ⟨FileSystem.empty [], none, 1⟩
    let path := "//lib///util.tar.gz//".toList
    FileMethod.join.Gives host ["a/".toList, "/b".toList] "a/b".toList ∧
    FileMethod.join.Gives host ["a//".toList, [], "//".toList, "/b".toList] "a/b".toList ∧
    FileMethod.basename.Gives host [path] "util.tar.gz".toList ∧
    FileMethod.dirname.Gives host [path] "//lib".toList ∧
    FileMethod.join.Gives host ["//lib".toList, "util.tar.gz".toList]
      "//lib/util.tar.gz".toList ∧
    FileMethod.basename.Gives host [path, ".*".toList] "util.tar".toList := by
  intro host path
  obtain ⟨hjoin, hparts⟩ := paths_are_regrouped_and_taken_apart host
  obtain ⟨a, b, c, ha, hb, hc, hall⟩ :=
    hjoin ["a//".toList, []] ["//".toList, "/b".toList] (by decide) (by decide)
  obtain rfl : a = "a/".toList := (gives_join host _).unique ha
  obtain rfl : b = "/b".toList := (gives_join host _).unique hb
  obtain rfl : c = "a/b".toList := (gives_join host _).unique hall
  obtain ⟨trimmed, n, base, dir, -, -, hbase, hdir, -, -, hnone, hsome, hsuffix⟩ :=
    hparts path ⟨'l', by decide, by decide⟩
  obtain rfl : base = "util.tar.gz".toList := (gives_basename host _).unique hbase
  obtain rfl : dir = "//lib".toList := (gives_dirname host _).unique hdir
  have hseparator : '/' ∈ trimmed := by
    by_contra hnot
    exact absurd (hnone hnot).2 (by decide)
  obtain ⟨front, k, -, -, hagain⟩ := hsome hseparator
  have hmerged : front ++ '/' :: "util.tar.gz".toList = "//lib/util.tar.gz".toList :=
    (gives_join host _).unique hagain
  obtain ⟨kept, rest, hkept, -⟩ := hsuffix ".*".toList
  obtain rfl : kept = "util.tar".toList := (gives_basenameWithout host _ _).unique hkept
  exact ⟨hc, hall, hbase, hdir, hmerged ▸ hagain, hkept⟩

end Garnet
