import Garnet.Proofs.Growth
import Garnet.Proofs.Stretches

/-!
# Units are loaded once

A unit is noted as loaded before it is evaluated, and the note is taken back
if the evaluation fails. In between, other units can be required, fail, be
rescued, and require each other in cycles. This module shows that the notes
stay true to what happened: in the whole of a session, at most one `require`
of a unit evaluates it with success.

What is shown of a stretch of a journal is `Orderly`: the interpreter has grown
from its beginning to its end, each episode in it is sound (`Episode.Sound`),
and the units that were loaded in it were not loaded before, are loaded
afterwards, and are different from each other. One stretch can be put after
another one (`Orderly.append`). The only assumption is that nothing binds the
global `$LOADED_FEATURES` anew; a program may put elements into the array.
-/

namespace Garnet

open Interpreter

namespace Episode

variable (files : FileSystem) (e : Episode)

/-- **The unit that an episode requires**, by its canonical path: none if the
episode is not a `require`, or if nothing was found. -/
def unit? : Option String :=
  match e.activity with
  | .require name =>
    if name = builtinFeature then none
    else match search files (unitFile name) e.before.loadPath with
      | .file _ place _ => some place.path
      | _ => none
  | _ => none

/-- **The unit that an episode loads**: one that it requires and evaluates with
success. -/
def loaded? : Option String :=
  match e.outcome with
  | .ok .true _ => e.unit? files
  | _ => none

/-- **Whether an episode binds the global for the loaded units anew.** -/
def rebinds : Bool :=
  match e.activity, e.outcome with
  | .node _ (.assignment (.globalVariable name) _), .ok _ _ => name == "LOADED_FEATURES"
  | _, _ => false

/-- Whether an episode is the `require` of a unit that does nothing. -/
def IsSkipped : Prop :=
  e.outcome = .ok .false e.before ∧ e.parts = []

/-- **What is true of every episode.** -/
structure Sound : Prop where
  /-- Loaded units can be listed. -/
  ready : e.before.Ready
  /-- The interpreter grows, however the episode ends. -/
  grows : e.before.Grows e.after
  /-- What was required with success was found. -/
  found : ∀ name t, e.activity = .require name → e.outcome = .ok .true t →
    ∃ p, e.unit? files = some p
  /-- To require a loaded unit does nothing. -/
  skips : ∀ p, e.unit? files = some p → e.before.isLoaded p = true → e.IsSkipped
  /-- To require a unit while it is being evaluated does nothing. -/
  reentry : ∀ p, e.unit? files = some p → ∀ k ∈ e.parts, k.unit? files = some p → k.IsSkipped
  /-- A unit that was evaluated with success is loaded. -/
  loads : ∀ p t, e.unit? files = some p → e.outcome = .ok .true t → t.isLoaded p = true
  /-- A unit that failed is not loaded. -/
  fails : ∀ p x t, e.unit? files = some p → e.outcome = .error (.raised x) t →
    t.isLoaded p = false

end Episode

/-- **A stretch of a journal in good order**, from one interpreter to
another. -/
structure Orderly (files : FileSystem) (s : Interpreter) (es : List Episode) (t : Interpreter) :
    Prop where
  /-- The interpreter has grown. -/
  grows : s.Grows t
  /-- It had grown when each episode started. -/
  within : ∀ e ∈ es, s.Grows e.before
  /-- Each episode is sound. -/
  sound : ∀ e ∈ es, e.Sound files
  /-- What is loaded was not loaded before. -/
  fresh : ∀ p ∈ es.filterMap (Episode.loaded? files), s.isLoaded p = false
  /-- What is loaded is loaded afterwards. -/
  kept : ∀ p ∈ es.filterMap (Episode.loaded? files), t.isLoaded p = true
  /-- Nothing is loaded twice. -/
  nodup : (es.filterMap (Episode.loaded? files)).Nodup

namespace Orderly

variable {files : FileSystem} {s t u : Interpreter} {es fs : List Episode}

/-- Growth in which nothing happens. -/
theorem nil (h : s.Grows t) : Orderly files s [] t where
  grows := h
  within _ he := absurd he List.not_mem_nil
  sound _ he := absurd he List.not_mem_nil
  fresh _ hp := absurd hp List.not_mem_nil
  kept _ hp := absurd hp List.not_mem_nil
  nodup := List.nodup_nil

/-- **One stretch after another.** What the second one loads is not loaded in
between, so it differs from what the first one has loaded. -/
theorem append (h : Orderly files s es t) (k : Orderly files t fs u) (hs : s.Ready) :
    Orderly files s (es ++ fs) u where
  grows := h.grows.trans k.grows
  within e he := by
    obtain he | he := List.mem_append.mp he
    · exact h.within e he
    · exact h.grows.trans (k.within e he)
  sound e he := (List.mem_append.mp he).elim (h.sound e) (k.sound e)
  fresh p hp := by
    rw [List.filterMap_append, List.mem_append] at hp
    obtain hp | hp := hp
    · exact h.fresh p hp
    · exact h.grows.not_isLoaded hs (k.fresh p hp)
  kept p hp := by
    rw [List.filterMap_append, List.mem_append] at hp
    obtain hp | hp := hp
    · exact k.grows.isLoaded (h.grows.ready hs) (h.kept p hp)
    · exact k.kept p hp
  nodup := by
    rw [List.filterMap_append]
    refine List.nodup_append.mpr ⟨h.nodup, k.nodup, fun p hp q hq heq => ?_⟩
    -- in between, what the first has loaded is loaded, and what the second loads is not
    have hloaded := h.kept p hp
    rw [heq, k.fresh q hq] at hloaded
    exact Bool.false_ne_true hloaded

/-- A stretch in good order is so from earlier on. -/
theorem from_before (h : Orderly files t es u) (hg : s.Grows t) (hs : s.Ready) :
    Orderly files s es u :=
  (nil hg).append h hs

/-- A stretch in good order is so until later. -/
theorem until_after (h : Orderly files s es t) (hg : t.Grows u) (hs : s.Ready) :
    Orderly files s es u := by
  have hall := h.append (nil hg) hs
  rwa [List.append_nil] at hall

/-- **The end of an episode.** If it loads a unit, that unit must not have been
loaded before, nor by any episode inside. -/
theorem ended {a : Activity} {o : EStateM.Result Halt Interpreter Value}
    (h : Orderly files s es (Outcome.state o)) (hsound : (⟨a, s, o, es⟩ : Episode).Sound files)
    (hl : ∀ p, (⟨a, s, o, es⟩ : Episode).loaded? files = some p →
      s.isLoaded p = false ∧ (Outcome.state o).isLoaded p = true ∧
        p ∉ es.filterMap (Episode.loaded? files)) :
    Orderly files s (es ++ [⟨a, s, o, es⟩]) (Outcome.state o) := by
  -- the episode itself can add its own unit at most
  have hmem : ∀ p, p ∈ [(⟨a, s, o, es⟩ : Episode)].filterMap (Episode.loaded? files) →
      (⟨a, s, o, es⟩ : Episode).loaded? files = some p := by
    intro p hp
    obtain ⟨e, he, hep⟩ := List.mem_filterMap.mp hp
    rwa [List.mem_singleton.mp he] at hep
  refine ⟨h.grows, fun e he => ?_, fun e he => ?_, fun p hp => ?_, fun p hp => ?_, ?_⟩
  · obtain he | he := List.mem_append.mp he
    · exact h.within e he
    · rw [List.mem_singleton.mp he]
      exact Grows.refl s
  · obtain he | he := List.mem_append.mp he
    · exact h.sound e he
    · rw [List.mem_singleton.mp he]
      exact hsound
  · rw [List.filterMap_append, List.mem_append] at hp
    exact hp.elim (h.fresh p) fun hp => (hl p (hmem p hp)).1
  · rw [List.filterMap_append, List.mem_append] at hp
    exact hp.elim (h.kept p) fun hp => (hl p (hmem p hp)).2.1
  · rw [List.filterMap_append]
    refine List.nodup_append.mpr ⟨h.nodup, ?_, fun p hp q hq heq => ?_⟩
    · cases hload : (⟨a, s, o, es⟩ : Episode).loaded? files with
      | none =>
        rw [List.filterMap_cons_none hload]
        exact List.nodup_nil
      | some p =>
        rw [List.filterMap_cons_some hload]
        exact List.nodup_cons.mpr ⟨List.not_mem_nil, List.nodup_nil⟩
    · exact (hl q (hmem q hq)).2.2 (heq ▸ hp)

/-- The end of an episode that requires no unit. -/
theorem ended_of_no_unit {a : Activity} {o : EStateM.Result Halt Interpreter Value}
    (hs : s.Ready) (h : Orderly files s es (Outcome.state o))
    (hu : (⟨a, s, o, es⟩ : Episode).unit? files = none)
    (ho : ∀ name t, a = .require name → o ≠ .ok .true t) :
    Orderly files s (es ++ [⟨a, s, o, es⟩]) (Outcome.state o) := by
  have hnone (p : String) (hp : (⟨a, s, o, es⟩ : Episode).unit? files = some p) : False := by
    rw [hu] at hp
    cases hp
  refine h.ended ⟨hs, h.grows, ?_, ?_, ?_, ?_, ?_⟩ fun p hp => ?_
  · exact fun name t ha hot => absurd hot (ho name t ha)
  · exact fun p hp => (hnone p hp).elim
  · exact fun p hp => (hnone p hp).elim
  · exact fun p t hp => (hnone p hp).elim
  · exact fun p x t hp => (hnone p hp).elim
  · refine (hnone p ?_).elim
    unfold Episode.loaded? at hp
    split at hp
    · exact hp
    · cases hp

/-- The end of an episode in which nothing took place, and which loads no
unit. -/
theorem ended_at_once {a : Activity} {o : EStateM.Result Halt Interpreter Value} (hs : s.Ready)
    (hstate : Outcome.state o = s) (ho : ∀ t, o ≠ .ok .true t)
    (hskips : ∀ p, (⟨a, s, o, []⟩ : Episode).unit? files = some p → s.isLoaded p = true →
      o = .ok .false s)
    (hfails : ∀ p x t, (⟨a, s, o, []⟩ : Episode).unit? files = some p →
      o = .error (.raised x) t → t.isLoaded p = false) :
    Orderly files s [⟨a, s, o, []⟩] (Outcome.state o) := by
  have hgrows : s.Grows (Outcome.state o) := by
    rw [hstate]
    exact Grows.refl s
  refine (nil hgrows).ended ⟨hs, hgrows, ?_, ?_, ?_, ?_, ?_⟩ fun p hp => ?_
  · exact fun name t _ hot => absurd hot (ho t)
  · exact fun p hp hsp => ⟨hskips p hp hsp, rfl⟩
  · exact fun p _ k hk => absurd hk List.not_mem_nil
  · exact fun p t _ hot => absurd hot (ho t)
  · intro p x t hp hot
    exact hfails p x t hp hot
  · unfold Episode.loaded? at hp
    split at hp
    · next hot => exact absurd hot (ho _)
    · cases hp

/-- Taking back the note for a unit that nothing in the stretch has loaded. -/
theorem unmarked {p : String} (h : Orderly files s es t) (hs : s.Ready)
    (hp : s.isLoaded p = false) (hes : p ∉ es.filterMap (Episode.loaded? files)) :
    Orderly files s es (unmarkLoaded p t) where
  grows := h.grows.unmarkLoaded hp
  within := h.within
  sound := h.sound
  fresh := h.fresh
  kept q hq := by
    have hne : (q != p) = true := bne_iff_ne.mpr fun heq => hes (heq ▸ hq)
    rw [isLoaded_unmarkLoaded (h.grows.ready hs), h.kept q hq, hne]
    rfl
  nodup := h.nodup

end Orderly

/-! ## Requiring a unit -/

namespace Orderly

variable {files : FileSystem} {s t : Interpreter} {es : List Episode} {p : String}
  {r : EStateM.Result Halt Interpreter Value}

/-- The note for a unit is no part of what is loaded while the unit is
evaluated. -/
theorem not_mem_loaded (h : Orderly files t es u) (hp : t.isLoaded p = true) :
    p ∉ es.filterMap (Episode.loaded? files) := by
  intro hmem
  have hnot := h.fresh p hmem
  rw [hp] at hnot
  exact Bool.false_ne_true hnot.symm

/-- **The evaluation of a unit, seen from before it was noted.** If it failed,
the note is taken back, and nothing else is. -/
theorem of_unit (h : Orderly files t es (Outcome.state r)) (hg : s.Grows t) (hs : s.Ready)
    (hp : s.isLoaded p = false) (ht : t.isLoaded p = true) :
    Orderly files s es (Outcome.state (Outcome.ofUnit p r)) := by
  have hinside := h.from_before hg hs
  cases r with
  | ok v u => exact hinside
  | error x u =>
    cases x with
    | raised x => exact hinside.unmarked hs hp (h.not_mem_loaded ht)
    | fault f => exact hinside
    | unexplored place => exact hinside
    | exhausted => exact hinside

/-- **What is true of requiring a unit that was not loaded.** The unit stays
noted throughout its evaluation, so requiring it again does nothing. -/
theorem sound_of_unit {a : Activity} (h : Orderly files t es (Outcome.state r))
    (hg : s.Grows t) (hs : s.Ready) (hp : s.isLoaded p = false) (ht : t.isLoaded p = true)
    (hu : (⟨a, s, Outcome.ofUnit p r, es⟩ : Episode).unit? files = some p) :
    (⟨a, s, Outcome.ofUnit p r, es⟩ : Episode).Sound files := by
  have heq {q : String}
      (hq : (⟨a, s, Outcome.ofUnit p r, es⟩ : Episode).unit? files = some q) : p = q :=
    Option.some.inj (hu.symm.trans hq)
  have htready := hg.ready hs
  refine ⟨hs, (h.of_unit hg hs hp ht).grows, fun _ _ _ _ => ⟨p, hu⟩, fun q hq hsq => ?_,
    fun q hq k hk hkq => ?_, fun q u hq ho => ?_, fun q x u hq ho => ?_⟩
  · rw [← heq hq, hp] at hsq
    cases hsq
  · rw [← heq hq] at hkq
    -- the interpreter has grown since the note was made, so it is still there
    exact (h.sound k hk).skips p hkq ((h.within k hk).isLoaded htready ht)
  · rw [← heq hq]
    cases r with
    | ok v u' =>
      cases ho
      exact h.grows.isLoaded htready ht
    | error x u' => cases x <;> cases ho
  · rw [← heq hq]
    cases r with
    | ok v u' => cases ho
    | error x' u' =>
      cases x' with
      | raised x' =>
        cases ho
        have hready : u'.Ready := h.grows.ready htready
        rw [isLoaded_unmarkLoaded hready, bne_self_eq_false, Bool.and_false]
      | fault f => cases ho
      | unexplored place => cases ho
      | exhausted => cases ho

/-- **Requiring a unit that was not loaded**, as a stretch of a journal. -/
theorem required {a : Activity} (h : Orderly files t es (Outcome.state r))
    (hg : s.Grows t) (hs : s.Ready) (hp : s.isLoaded p = false) (ht : t.isLoaded p = true)
    (hu : (⟨a, s, Outcome.ofUnit p r, es⟩ : Episode).unit? files = some p) :
    Orderly files s (es ++ [⟨a, s, Outcome.ofUnit p r, es⟩])
      (Outcome.state (Outcome.ofUnit p r)) := by
  refine (h.of_unit hg hs hp ht).ended (h.sound_of_unit hg hs hp ht hu) fun q hq => ?_
  cases r with
  | ok v u =>
    have hpq : p = q := Option.some.inj (hu.symm.trans hq)
    rw [← hpq]
    exact ⟨hp, h.grows.isLoaded (hg.ready hs) ht, h.not_mem_loaded ht⟩
  | error x u => cases x <;> cases hq

end Orderly

/-- **A watched evaluation that keeps a session in good order**, as long as
nothing in it binds the global for the loaded units anew. -/
def LoadsOnce (files : FileSystem) {α : Type} (m : Watched α) : Prop :=
  ∀ s : Interpreter, s.Ready → (∀ e ∈ m.journal s, e.rebinds = false) →
    Orderly files s (m.journal s) (Outcome.state (m.eval s))

namespace LoadsOnce

variable {α β : Type} {files : FileSystem}

theorem ordinary {m : Eval α} (h : Ordinary files m) : LoadsOnce files (Watched.quietly m) :=
  fun s _ _ => Orderly.nil (Grows.of_effects (h.effects s))

theorem throw (h : Halt) : LoadsOnce files (Watched.quietly (throw h : Eval α)) :=
  fun s _ _ => Orderly.nil (Grows.refl s)

theorem bind {m : Watched α} {f : α → Watched β} (hm : LoadsOnce files m)
    (hf : ∀ a, (∃ s t, m.eval s = .ok a t) → LoadsOnce files (f a)) :
    LoadsOnce files (m >>= f) := by
  intro s hs hq
  rw [Watched.eval_bind]
  cases hms : m.eval s with
  | ok a t =>
    rw [Watched.journal_bind_of_ok hms] at hq ⊢
    rw [Outcome.bind_of_ok hms]
    have h := hm s hs fun e he => hq e (List.mem_append_left _ he)
    rw [hms] at h
    have k := hf a ⟨s, t, hms⟩ t (h.grows.ready hs) fun e he => hq e (List.mem_append_right _ he)
    exact h.append k hs
  | error x t =>
    rw [Watched.journal_bind_of_error hms] at hq ⊢
    rw [Outcome.bind_of_error hms]
    have h := hm s hs hq
    rw [hms] at h
    exact h

theorem rescuing {m : Watched α} {handler : Error → Watched α} (hm : LoadsOnce files m)
    (hh : ∀ e, LoadsOnce files (handler e)) : LoadsOnce files (Watched.rescuing m handler) := by
  intro s hs hq
  rw [Watched.eval_rescuing]
  obtain ⟨x, t, hms⟩ | hms := Outcome.raised_or_not (m.eval s)
  · rw [Watched.journal_rescuing_of_raised hms] at hq ⊢
    rw [Outcome.rescuing_of_raised hms]
    have h := hm s hs fun e he => hq e (List.mem_append_left _ he)
    rw [hms] at h
    have k := hh x t (h.grows.ready hs) fun e he => hq e (List.mem_append_right _ he)
    exact h.append k hs
  · rw [Watched.journal_rescuing_of_not_raised hms] at hq ⊢
    rw [Outcome.rescuing_of_not_raised hms]
    exact hm s hs hq

/-- Which calls are active does not matter to the list of loaded units. -/
theorem inFrame {label : String} {m : Watched α} (hm : LoadsOnce files m) :
    LoadsOnce files (Watched.inFrame label m) := by
  intro s hs hq
  have hpushed : s.Grows { s with stack := s.stack.push label } := Grows.of_arrays_eq rfl rfl
  have h := (hm _ (hpushed.ready hs) hq).from_before hpushed hs
  rw [Watched.eval_inFrame, Outcome.inFrame_eq, Outcome.state_mapState]
  exact h.until_after (Grows.of_arrays_eq rfl rfl) hs

/-- Neither does the present unit. -/
theorem inUnit {name : String} {m : Watched α} (hm : LoadsOnce files m) :
    LoadsOnce files (Watched.inUnit name m) := by
  intro s hs hq
  have hnamed : s.Grows { s with unitName := name } := Grows.of_arrays_eq rfl rfl
  have h := (hm _ (hnamed.ready hs) hq).from_before hnamed hs
  rw [Watched.eval_inUnit, Outcome.inUnit_eq, Outcome.state_mapState]
  exact h.until_after (Grows.of_arrays_eq rfl rfl) hs

/-- Whatever is not a `require` loads nothing by itself. -/
theorem noting {a : Activity} {m : Watched Value} (ha : ∀ name, a ≠ .require name)
    (hm : LoadsOnce files m) : LoadsOnce files (Watched.noting a m) := by
  intro s hs hq
  have h := hm s hs fun e he => hq e (List.mem_append_left _ he)
  refine h.ended_of_no_unit hs ?_ fun name _ hname => absurd hname (ha name)
  unfold Episode.unit?
  cases a with
  | require name => exact absurd rfl (ha name)
  | node self n => rfl
  | method m receiver args => rfl
  | program source => rfl
  | file path => rfl

/-- **Requiring a unit** keeps a session in good order. -/
theorem require {run : String → Watched Value} (hrun : ∀ source, LoadsOnce files (run source))
    (name : String) : LoadsOnce files (Watched.require files run name) := by
  intro s hs
  unfold Watched.require
  by_cases hname : name = builtinFeature
  · rw [if_pos hname]
    intro _
    exact (Orderly.nil (Grows.refl s)).ended_of_no_unit hs (if_pos hname)
      fun _ _ _ ho => by cases ho
  have hunit : ∀ o es, (⟨.require name, s, o, es⟩ : Episode).unit? files
      = match search files (unitFile name) s.loadPath with
        | .file _ place _ => some place.path
        | _ => none := fun o es => if_neg hname
  rw [if_neg hname, (Watched.noting_get _ _ s).1, (Watched.noting_get _ _ s).2]
  cases hfound : search files (unitFile name) s.loadPath with
  | nothing =>
    intro _
    refine (Orderly.nil (Grows.refl s)).ended_of_no_unit hs ?_ fun _ _ _ ho => by cases ho
    rw [hunit, hfound]
  | unexplored place =>
    intro _
    refine (Orderly.nil (Grows.refl s)).ended_of_no_unit hs ?_ fun _ _ _ ho => by cases ho
    rw [hunit, hfound]
  | file path place bytes =>
    rw [hfound] at hunit
    dsimp only at hunit ⊢
    have heq {o es q} (hq : (⟨.require name, s, o, es⟩ : Episode).unit? files = some q) :
        place.path = q := Option.some.inj ((hunit o es).symm.trans hq)
    cases hloaded : s.isLoaded place.path with
    | true =>
      rw [if_pos rfl]
      intro _
      refine Orderly.ended_at_once hs rfl (fun _ ho => by cases ho) (fun _ _ _ => rfl) ?_
      exact fun _ _ _ _ ho => by cases ho
    | false =>
      rw [if_neg Bool.false_ne_true]
      cases (Entry.file bytes).text with
      | error e =>
        intro _
        refine Orderly.ended_at_once hs rfl (fun _ ho => by cases ho) (fun q hq hsq => ?_) ?_
        · rw [← heq hq, hloaded] at hsq
          cases hsq
        · intro q x t hq ho
          cases ho
          rw [← heq hq]
          exact hloaded
      | ok source =>
        -- the text is run from `t`, where the unit is noted as loaded
        obtain ⟨t, hmark, hgrows, ht⟩ := hs.markLoaded place.path
        obtain ⟨heval, hjournal⟩ := Watched.noted_unit path (run source) hmark
        rw [Watched.journal_noting, Watched.eval_noting, heval, hjournal]
        intro hq
        have h := (hrun source).inUnit t (hgrows.ready hs)
          fun e he => hq e (List.mem_append_left _ he)
        exact h.required hgrows hs hloaded ht (hunit _ _)

/-- An assignment. If it bound the global for the loaded units, the journal
would say so. -/
theorem assignment {self : Value} {lhs rhs : Node} {m : Watched Value} (hm : LoadsOnce files m) :
    LoadsOnce files (Watched.noting (.node self (.assignment lhs rhs)) do
      let v ← m
      Watched.quietly (assign lhs v)
      return v) := by
  by_cases hl : lhs = .globalVariable "LOADED_FEATURES"
  · subst hl
    intro s hs
    rw [Watched.journal_noting, Watched.eval_noting, Watched.eval_bind]
    intro hq
    cases hms : m.eval s with
    | ok v t =>
      -- the assignment succeeds whenever its right side does
      have hrebinds := hq _ (List.mem_append_right _ (List.mem_singleton_self _))
      rw [Outcome.bind_of_ok hms] at hrebinds
      cases hrebinds
    | error x t =>
      rw [Watched.journal_bind_of_error hms, Outcome.bind_of_error hms] at hq ⊢
      have h := hm s hs fun e he => hq e (List.mem_append_left _ he)
      rw [hms] at h
      exact h.ended_of_no_unit hs rfl fun _ _ ha => Activity.noConfusion ha
  · refine noting (fun _ => Activity.noConfusion) (bind hm fun v _ => bind ?_ fun _ _ => ?_)
    · exact fun s _ _ => Orderly.nil (Grows.assign hl v s)
    · exact ordinary (Ordinary.pure v)

/-- **No evaluation loads a unit twice.** -/
theorem closed (host : Host) :
    Watched.Closed host Watched.Domain.all (LoadsOnce host.files) where
  texts _ _ := trivial
  methods _ _ _ := trivial
  ordinary := ordinary
  bind hm hf := bind hm fun a ⟨s, t, hs⟩ => hf a ⟨s, t, trivial, hs⟩
  rescuing := rescuing
  inFrame := inFrame
  inUnit := inUnit
  method _ := noting fun _ => Activity.noConfusion
  file := noting fun _ => Activity.noConfusion
  program _ := noting fun _ => Activity.noConfusion
  require hrun := require fun source => hrun source trivial
  node _ := noting fun _ => Activity.noConfusion
  define {_ name _ _} _ :=
    noting (fun _ => Activity.noConfusion) fun s _ _ => Orderly.nil (Grows.define name s)
  assignment _ := assignment
  notEvaluated _ _ := noting (fun _ => Activity.noConfusion) (throw _)
  exhausted := throw _

end LoadsOnce

/-! ## Sessions -/

/-- A new interpreter can list loaded units. -/
theorem Interpreter.ready_start (programName : String) (loadPath argv : List String) :
    (start programName loadPath argv).Ready := by
  obtain ⟨s, _, hs⟩ := start_eq programName loadPath argv
  obtain ⟨t, ht, hfeatures, hsize, _⟩ := bindProgram_eq programName loadPath argv s
  rw [hs] at ht
  cases ht
  exact ⟨_, hfeatures, by rw [hsize]; exact Nat.lt_succ_self _⟩

/-- **Every session is in good order.** -/
theorem Orderly.session (host : Host) (depth : Nat) (rs : List Request) {s : Interpreter}
    (hs : s.Ready) (hq : ∀ e ∈ Session.journal host depth rs s, e.rebinds = false) :
    ∃ t, Orderly host.files s (Session.journal host depth rs s) t := by
  induction rs generalizing s with
  | nil => exact ⟨s, Orderly.nil (Grows.refl s)⟩
  | cons r rs ih =>
    have closed := LoadsOnce.closed host
    have h := Request.of_closed closed (closed.run (fun _ => trivial) depth)
      (fun _ _ => trivial) s hs fun e he => hq e (List.mem_append_left _ he)
    rw [Request.eval_watched] at h
    -- the next request starts where this one has stopped, also if it failed
    obtain ⟨t, ht⟩ := ih (h.grows.ready hs) fun e he => hq e (List.mem_append_right _ he)
    exact ⟨t, h.append ht hs⟩

/-- **Load once.** In a session of a new interpreter in which nothing binds the
global `$LOADED_FEATURES` anew, however its requests fail:

* what is listed as loaded when an evaluation starts is still listed, in the
  same order, when it ends, in whatever way it ends;
* to require a unit that is listed returns `false`, evaluates nothing and
  changes nothing; in particular a unit does not come back to itself by
  `require` while it is being evaluated, however long the cycle;
* a unit whose `require` returned `true` is listed then, and one whose
  `require` raised an error is not, so that it can be required again;
* of all that is required at any depth, no unit returns `true` twice. -/
theorem units_are_loaded_once (host : Host) (depth : Nat) (rs : List Request)
    (programName : String) (loadPath argv : List String)
    (hq : ∀ e ∈ Session.journal host depth rs (start programName loadPath argv),
      e.rebinds = false) :
    let es := Session.journal host depth rs (start programName loadPath argv)
    (∀ e ∈ es, e.before.features.Sublist e.after.features) ∧
    (∀ e ∈ es, ∀ p, e.unit? host.files = some p → e.before.isLoaded p = true → e.IsSkipped) ∧
    (∀ e ∈ es, ∀ p, e.unit? host.files = some p →
      ∀ k ∈ e.parts, k.unit? host.files = some p → k.IsSkipped) ∧
    (∀ e ∈ es, ∀ name t, e.activity = .require name → e.outcome = .ok .true t →
      ∃ p, e.unit? host.files = some p ∧ t.isLoaded p = true) ∧
    (∀ e ∈ es, ∀ p x t, e.unit? host.files = some p → e.outcome = .error (.raised x) t →
      t.isLoaded p = false) ∧
    (es.filterMap (Episode.loaded? host.files)).Nodup := by
  intro es
  obtain ⟨t, h⟩ := Orderly.session host depth rs (ready_start programName loadPath argv) hq
  refine ⟨fun e he => ?_, fun e he => (h.sound e he).skips, fun e he => (h.sound e he).reentry,
    fun e he name t ha ho => ?_, fun e he => (h.sound e he).fails, h.nodup⟩
  · exact (h.sound e he).grows.features (h.sound e he).ready
  · obtain ⟨p, hp⟩ := (h.sound e he).found name t ha ho
    exact ⟨p, hp, (h.sound e he).loads p t hp ho⟩

/-- A host with one file, a unit that requires itself. -/
def hostOfCycle : Host where
  files := (FileSystem.empty []).write ["cycle.rb"] (.file "$again = require('cycle')".toUTF8)
  home := none
  processId := 1

/-- Requiring a unit that requires itself, twice: of the three times that it is
required, only the first evaluates it. -/
theorem cycle_is_loaded_once :
    let rs := [.require "cycle", .require "cycle"]
    let es := Session.journal hostOfCycle 2 rs (start "main.rb" ["/"] [])
    (∀ e ∈ es, e.rebinds = false) ∧
    es.filterMap (Episode.unit? hostOfCycle.files) = ["/cycle.rb", "/cycle.rb", "/cycle.rb"] ∧
    es.filterMap (Episode.loaded? hostOfCycle.files) = ["/cycle.rb"] ∧
    (es.filterMap (Episode.loaded? hostOfCycle.files)).Nodup := by
  intro rs es
  have hq : ∀ e ∈ es, e.rebinds = false := by
    have hall : es.all (!·.rebinds) = true := by decide +kernel
    exact fun e he => Bool.not_eq_true' _ |>.mp (List.all_eq_true.mp hall e he)
  refine ⟨hq, by decide +kernel, by decide +kernel, ?_⟩
  exact (units_are_loaded_once hostOfCycle 2 rs "main.rb" ["/"] [] hq).2.2.2.2.2

end Garnet
