import Garnet.Proofs.Prefixes

/-!
# Completing what was begun

A reader **reaches** the end of some tokens if it has taken them all and then
stops, or fails at the token after them (`Reaches`). What it has begun there can
be **completed** if some tokens can be put after those it has taken, so that all
of them are read (`Completes`), and a construct can be **started** if some tokens
make it up (`Starts`). Which tokens may follow matters, as it does for everything
that is read.

The two go together, because a reader made of two comes to an end in either of
them: where the first one does, it is completed and the second one is started,
and where the second one does, the first one has read what it has read
(`Completable.bind`).

The readers on both sides differ in their bounds. What completes a construct may
need larger ones, so it is read by a family of readers, one for each size, and
only those count that are large enough.
-/

namespace Garnet

open Garnet.Parser Token

/-- Whether an error is about the token that the reader stands at. -/
def SyntaxError.IsAboutToken : SyntaxError → Prop
  | unexpectedToken .. => True
  | invalidToken _ => True
  | invalidTarget .. => False

variable {α β ι : Type}

/-- **How a reader comes to a stop at a token**: it goes no further, or the token is
wrong. -/
inductive StopsAt (d : Cursor) : EStateM.Result Failure Cursor α → Prop
  | ok (a : α) : StopsAt d (.ok a d)
  | wrong (e : SyntaxError) (h : e.IsAboutToken) : StopsAt d (.error (.wrong e) d)

/-- **Whether a reader reaches the end of some kinds of token**: it takes them all,
and stops at what follows them in some stream. -/
def Reaches (p : Parser α) (ks : List Kind) : Prop :=
  ∃ (c d : Cursor) (used : List Token), c.tokens = used ++ d.tokens ∧ used.map Token.kind = ks ∧
    StopsAt d (p c)

/-- **What can be started**: some tokens, the first of them in `first`, are read by
all readers that are large enough, in front of what is in `follow`. -/
def Starts (size : ι → Nat) (i : Nat) (first follow : Kind → Bool) (q : ι → Parser α) : Prop :=
  ∃ (more : List Kind) (a : α), Admits first follow more ∧ i ≤ more.length ∧
    ∀ x, more.length < size x → Reads (q x) follow more a

/-- **What can be completed**: where `p` reaches the end of some tokens, they are the
first ones of a construct that is read by all readers that are large enough, in
front of what is in `follow`. -/
structure Completes (size : ι → Nat) (i k : Nat) (follow : Kind → Bool) (p : Parser α)
    (q : ι → Parser α) : Prop where
  /-- What `p` has read is read whatever follows it. -/
  self : Alike i k p p
  /-- It is read by the others, too. -/
  alike : ∀ x, Alike i (min k (size x)) p (q x)
  /-- What `p` has begun is completed by something. -/
  reach : ∀ ks, ks ≠ [] → ks.length < k → Reaches p ks →
    ∃ (more : List Kind) (a : α), i ≤ (ks ++ more).length ∧
      ∀ x, (ks ++ more).length < size x → Reads (q x) follow (ks ++ more) a

/-- **What can be completed and started.** -/
structure Completable (size : ι → Nat) (i k : Nat) (first follow : Kind → Bool) (p : Parser α)
    (q : ι → Parser α) : Prop extends Completes size i k follow p q where
  /-- If nothing was begun, something can be. -/
  start : Starts size i first follow q

/-! ## Cursors and their tokens -/

/-- A place is determined by the tokens that are left. -/
theorem Cursor.eq_of_tokens {c d : Cursor} (h : c.tokens = d.tokens) : c = d := by
  obtain ⟨t, ts, room, hroom⟩ := c
  obtain ⟨u, us, room', hroom'⟩ := d
  obtain ⟨rfl, rfl⟩ := List.cons.inj h
  obtain rfl : room = room' := hroom.trans hroom'.symm
  rfl

theorem Cursor.tokens_atKinds (k : Kind) (ks : List Kind) :
    (Cursor.atKinds (k :: ks)).tokens = ofKind k :: ks.map ofKind := rfl

theorem map_kind_ofKind (ks : List Kind) : (ks.map ofKind).map Token.kind = ks := by
  rw [List.map_map]
  exact List.map_id ks

theorem Cursor.tokens_atKinds_append (ks : List Kind) (k : Kind) (ls : List Kind) :
    (Cursor.atKinds (ks ++ k :: ls)).tokens = ks.map ofKind ++ ofKind k :: ls.map ofKind := by
  unfold Cursor.atKinds
  rw [List.map_append]
  exact tokens_start_append _ _ _

/-- **What was read in front of a token** is read by all readers that do the same. -/
theorem Alike.reads {p q : Parser α} {i k : Nat} (h : Alike i k p q) {c d : Cursor} {a : α}
    {t : Token} {used rest : List Token} (hp : p c = .ok a d) (hd : d.tokens = t :: rest)
    (hc : c.tokens = used ++ t :: rest) (hrest : rest ≠ []) (hk : used.length < k) :
    i ≤ used.length ∧ Reads q (· == t.kind) (used.map Token.kind) a := by
  have hread {u : Kind} (more : List Kind) (hu : u = t.kind) :=
    h.ok_upTo hp hd hc hrest (Cursor.tokens_atKinds_append (used.map Token.kind) u more)
      (map_kind_ofKind _) hu hk
  refine ⟨(hread [] rfl).1, fun u more hu => ?_⟩
  obtain ⟨_, f, hf, htokens⟩ := (hread more (eq_of_beq hu)).2
  rw [hf, Cursor.eq_of_tokens (htokens.trans (Cursor.tokens_atKinds u more).symm)]

namespace Reads

variable {p : Parser α} {follow : Kind → Bool} {ks : List Kind} {a : α}

/-- A token, and what goes on after it. -/
theorem taking {next : Kind → Option (Parser α)} {otherwise : Parser α} {k : Kind}
    (hk : next k = some p) (hp : Reads p follow ks a) :
    Reads (taking next otherwise) follow (k :: ks) a := by
  intro l rest hl
  have hadvance : (Cursor.atKinds (k :: (ks ++ l :: rest))).advance
      = Cursor.atKinds (ks ++ l :: rest) := by
    cases ks <;> rfl
  rw [List.cons_append, taking_of_some hk, hadvance]
  exact hp l rest hl

/-- All of what is skipped. -/
theorem skipWhile {b : Kind → Bool} (hks : ∀ u ∈ ks, b u = true)
    (hfollow : ∀ u, follow u = true → b u = false) :
    Reads (modify (Cursor.skipWhile b)) follow ks () := by
  intro l rest hl
  refine congrArg (EStateM.Result.ok ()) ?_
  induction ks with
  | nil => exact Cursor.skipWhile_of_not (hfollow l hl)
  | cons u us ih =>
    rw [List.forall_mem_cons] at hks
    cases us with
    | nil => exact (Cursor.skipWhile_of u l rest hks.1).trans (ih hks.2)
    | cons v vs => exact (Cursor.skipWhile_of u v (vs ++ l :: rest) hks.1).trans (ih hks.2)

end Reads

/-! ## Reaching the end -/

/-- Where a reader stops is the state it leaves. -/
theorem StopsAt.state {d : Cursor} {x : EStateM.Result Failure Cursor α} (h : StopsAt d x) :
    Outcome.state x = d := by
  cases h with
  | ok a => rfl
  | wrong e h => rfl

namespace Reaches

variable {p : Parser α} {f : α → Parser β} {ks : List Kind} {i j k m : Nat}

/-- **Where two readers reach the end**, the first one does, or it has read a part
of what is there, and the second one goes on to the end. -/
theorem of_bind (h : Reaches (p >>= f) ks) {q : Parser α} {g : α → Parser β}
    (hp : Alike i k p q) (hf : ∀ a, Alike j m (f a) (g a)) :
    Reaches p ks ∨ ∃ (a : α) (c d : Cursor) (used rest : List Token) (t : Token) (ls : List Kind),
      p c = .ok a d ∧ c.tokens = used ++ t :: rest ∧ d.tokens = t :: rest ∧ rest ≠ [] ∧
        ks = used.map Token.kind ++ t.kind :: ls ∧ Reaches (f a) (t.kind :: ls) := by
  obtain ⟨c, e, used, hc, rfl, hstop⟩ := h
  cases hout : p c with
  | error x d =>
    rw [Outcome.bind_of_error hout] at hstop
    cases hstop with
    | wrong x hx => exact .inl ⟨c, _, used, hc, rfl, by rw [hout]; exact .wrong x hx⟩
  | ok a d =>
    rw [Outcome.bind_of_ok hout] at hstop
    have hd := hp.place_of_nil c
    rw [hout] at hd
    obtain ⟨before, hbefore⟩ := hd
    have he := (hf a).place_of_nil d
    rw [hstop.state] at he
    obtain ⟨after, hafter⟩ := he
    change before ++ d.tokens = c.tokens at hbefore
    obtain rfl : used = before ++ after := by
      rw [hc, ← hafter, ← List.append_assoc] at hbefore
      exact (List.append_cancel_right hbefore).symm
    cases after with
    | nil =>
      obtain rfl : e = d := Cursor.eq_of_tokens hafter
      exact .inl ⟨c, e, _, hc, rfl, by rw [hout]; exact .ok a⟩
    | cons t ts =>
      have hne : ts ++ e.tokens ≠ [] :=
        List.append_ne_nil_of_right_ne_nil ts (List.cons_ne_nil e.current e.ahead)
      refine .inr ⟨a, c, d, before, ts ++ e.tokens, t, ts.map Token.kind, hout, ?_, hafter.symm,
        hne, List.map_append, d, e, t :: ts, hafter.symm, rfl, hstop⟩
      rw [hc, List.append_assoc]
      rfl

/-- A reader that stays where it is reaches nothing. -/
theorem eq_nil (h : Reaches p ks) (hp : ∀ c, Outcome.state (p c) = c) : ks = [] := by
  obtain ⟨c, d, used, hc, rfl, hstop⟩ := h
  obtain rfl : c = d := (hp c).symm.trans hstop.state
  have hused : used = [] := List.append_left_eq_self.mp hc.symm
  rw [hused, List.map_nil]

/-- What is reached after the current token. -/
theorem of_advance {r : Parser α} {u : Kind} {us : List Kind} (h : Reaches p (u :: us))
    (hp : ∀ c : Cursor, c.kind = u → p c = r c.advance) : Reaches r us := by
  obtain ⟨c, d, used, hc, hkinds, hstop⟩ := h
  obtain ⟨t, ts, rfl, rfl, rfl⟩ := List.map_eq_cons_iff.mp hkinds
  have hadvance : c.advance.tokens = ts ++ d.tokens :=
    Cursor.tokens_advance hc (List.append_ne_nil_of_right_ne_nil ts (List.cons_ne_nil _ _))
  rw [hp c (Cursor.kind_of_tokens hc)] at hstop
  exact ⟨c.advance, d, ts, hadvance, rfl, hstop⟩

/-- What is reached in front of the current token. -/
theorem of_kind {r : Parser α} {u : Kind} {us : List Kind} (h : Reaches p (u :: us))
    (hp : ∀ c : Cursor, c.kind = u → p c = r c) : Reaches r (u :: us) := by
  obtain ⟨c, d, used, hc, hkinds, hstop⟩ := h
  obtain ⟨t, ts, rfl, rfl, rfl⟩ := List.map_eq_cons_iff.mp hkinds
  rw [hp c (Cursor.kind_of_tokens hc)] at hstop
  exact ⟨c, d, t :: ts, hc, rfl, hstop⟩

end Reaches

/-! ## Building up what can be completed -/

variable {size size' : ι → Nat} {i j k m n : Nat} {first first' follow follow' : Kind → Bool}
  {p : Parser α} {q : ι → Parser α}

/-- Less can be said of what comes first. -/
theorem Admits.mono {ks : List Kind} (h : Admits first follow ks)
    (hfirst : ∀ u, first u = true → first' u = true)
    (hfollow : ∀ u, follow' u = true → follow u = true) : Admits first' follow' ks := by
  cases ks with
  | nil => exact fun u hu => hfirst u (h u (hfollow u hu))
  | cons u us => exact hfirst u h

/-- Less can be said of what starts. -/
theorem Starts.mono (h : Starts size i first follow q) (hsize : ∀ x, size' x ≤ size x)
    (hj : j ≤ i) (hfirst : ∀ u, first u = true → first' u = true)
    (hfollow : ∀ u, follow' u = true → follow u = true) : Starts size' j first' follow' q := by
  obtain ⟨more, a, hadmits, hi, hread⟩ := h
  refine ⟨more, a, hadmits.mono hfirst hfollow, Nat.le_trans hj hi, fun x hx => ?_⟩
  exact (hread x (Nat.lt_of_lt_of_le hx (hsize x))).restrict hfollow

/-- Something may stand around what starts. -/
theorem Starts.inside {κ : Type} {size' : κ → Nat} (h : Starts size i first follow q) (x : κ → ι)
    (hsize : ∀ y, size' y ≤ size (x y)) : Starts size' i first follow (fun y => q (x y)) := by
  obtain ⟨more, a, hadmits, hi, hread⟩ := h
  exact ⟨more, a, hadmits, hi, fun y hy => hread (x y) (Nat.lt_of_lt_of_le hy (hsize y))⟩

/-- Nothing is read. -/
theorem Starts.done (a : α) :
    Starts size 0 follow follow (fun _ => Pure.pure a) :=
  ⟨[], a, fun _ h => h, Nat.le_refl 0, fun _ _ => Reads.pure a⟩

/-- One reader after another. -/
theorem Starts.bind {g : ι → α → Parser β} (hq : Starts size i first first' q)
    (hg : ∀ a, Starts (fun x => size x - i) (n - i) first' follow (g · a)) :
    Starts size n first follow (fun x => q x >>= g x) := by
  obtain ⟨ks, a, hadmits, hi, hread⟩ := hq
  obtain ⟨ls, b, hadmits', hn, hread'⟩ := hg a
  refine ⟨ks ++ ls, b, hadmits.append hadmits', ?_, fun x hx => ?_⟩
  · rw [List.length_append]
    omega
  · rw [List.length_append] at hx
    have hls : ls.length < size x - i := by omega
    exact (hread x (by omega)).bind (hread' x hls) hadmits'

/-- A token that may be there is left out. -/
theorem Starts.eat {t : Kind} {g : ι → Bool → Parser α}
    (h : Starts size i first follow (g · false))
    (hfirst : ∀ u, first u = true → unlike t u = true) :
    Starts size i first follow (fun x => Parser.eat t >>= g x) := by
  obtain ⟨more, a, hadmits, hi, hread⟩ := h
  refine ⟨more, a, hadmits, hi, fun x hx => (Reads.eat_miss t).stay (hread x hx) ?_⟩
  exact hadmits.mono hfirst fun _ h => h

/-- A bound that has not been met. -/
theorem Starts.succ {s : ι → Nat → Parser α}
    (h : Starts (fun x : ι × Nat => min (size x.1) (x.2 + 1)) i first follow
      (fun x => s x.1 (x.2 + 1))) :
    Starts (fun x : ι × Nat => min (size x.1) x.2) i first follow (fun x => s x.1 x.2) := by
  obtain ⟨more, a, hadmits, hi, hread⟩ := h
  refine ⟨more, a, hadmits, hi, fun x hx => ?_⟩
  obtain ⟨x, b⟩ := x
  cases b with
  | zero => exact absurd (Nat.lt_of_lt_of_le hx (Nat.min_le_right _ _)) (Nat.not_lt_zero _)
  | succ b => exact hread (x, b) hx

namespace Completes

/-- Something may stand around what is completed. -/
theorem inside {κ : Type} {size' : κ → Nat} (h : Completes size i k follow p q) (x : κ → ι)
    (hsize : ∀ y, size' y ≤ size (x y)) (hj : j ≤ i) (hm : m ≤ k) :
    Completes size' j m follow p (fun y => q (x y)) where
  self := Alike.close.mono h.self hj hm
  alike y := by
    have := hsize y
    exact Alike.close.mono (h.alike (x y)) hj (by omega)
  reach ks hne hks hreach := by
    obtain ⟨more, a, hi, hread⟩ := h.reach ks hne (Nat.lt_of_lt_of_le hks hm) hreach
    exact ⟨more, a, Nat.le_trans hj hi, fun y hy =>
      hread (x y) (Nat.lt_of_lt_of_le hy (hsize y))⟩

/-- Less can be said of what is completed. -/
theorem mono (h : Completes size i k follow p q) (hsize : ∀ x, size' x ≤ size x) (hj : j ≤ i)
    (hm : m ≤ k) (hfollow : ∀ u, follow' u = true → follow u = true) :
    Completes size' j m follow' p q := by
  have hinside := h.inside id hsize hj hm
  refine ⟨hinside.self, hinside.alike, fun ks hne hks hreach => ?_⟩
  obtain ⟨more, a, hj, hread⟩ := hinside.reach ks hne hks hreach
  exact ⟨more, a, hj, fun x hx => (hread x hx).restrict hfollow⟩

/-- The current token is looked at. -/
theorem look {f : Kind → Parser α} {g : ι → Kind → Parser α}
    (hfg : ∀ u, Completes size i k follow (f u) (g · u)) :
    Completes size i k follow (kind >>= f) (fun x => kind >>= g x) where
  self := Alike.look fun u => (hfg u).self
  alike x := Alike.look fun u => (hfg u).alike x
  reach ks hne hks hreach := by
    cases ks with
    | nil => exact absurd rfl hne
    | cons u us =>
      have hf : Reaches (f u) (u :: us) := hreach.of_kind fun c hc => by rw [kind_bind, hc]
      obtain ⟨more, a, hi, hread⟩ := (hfg u).reach _ hne hks hf
      exact ⟨more, a, hi, fun x hx => Reads.kind_cons (hread x hx)⟩

end Completes

namespace Completable

/-- Something may stand around what is completed and started. -/
theorem inside {κ : Type} {size' : κ → Nat} (h : Completable size i k first follow p q)
    (x : κ → ι) (hsize : ∀ y, size' y ≤ size (x y)) (hj : j ≤ i) (hm : m ≤ k) :
    Completable size' j m first follow p (fun y => q (x y)) where
  toCompletes := h.toCompletes.inside x hsize hj hm
  start := (h.start.inside x hsize).mono (fun _ => Nat.le_refl _) hj (fun _ hu => hu) fun _ hu => hu

/-- Less can be said of what is completed and started. -/
theorem mono (h : Completable size i k first follow p q) (hsize : ∀ x, size' x ≤ size x)
    (hj : j ≤ i) (hm : m ≤ k) (hfirst : ∀ u, first u = true → first' u = true)
    (hfollow : ∀ u, follow' u = true → follow u = true) :
    Completable size' j m first' follow' p q where
  toCompletes := h.toCompletes.mono hsize hj hm hfollow
  start := h.start.mono hsize hj hfirst hfollow

/-- **One reader after another.** -/
theorem bind {f : α → Parser β} {g : ι → α → Parser β}
    (hpq : Completable size i k first first' p q)
    (hfg : ∀ a, Completable (fun x => size x - i) (n - i) (k - i) first' follow (f a) (g · a)) :
    Completable size n k first follow (p >>= f) (fun x => q x >>= g x) where
  self := Alike.bind hpq.self fun a => (hfg a).self
  alike x := Alike.bind (hpq.alike x) fun a =>
    Alike.close.mono ((hfg a).alike x) (Nat.le_refl _) (by omega)
  start := hpq.start.bind fun a => (hfg a).start
  reach ks hne hks hreach := by
    obtain hp | ⟨a, c, d, used, rest, t, ls, hp, hc, hd, hrest, rfl, hf⟩ :=
      hreach.of_bind hpq.self fun a => (hfg a).self
    · -- what was begun of the first is completed, and the second one is started
      obtain ⟨more, a, hi, hread⟩ := hpq.reach ks hne hks hp
      obtain ⟨ls, b, hadmits, hn, hread'⟩ := (hfg a).start
      rw [List.length_append] at hi hread
      refine ⟨more ++ ls, b, ?_, fun x hx => ?_⟩
      · simp only [List.length_append]
        omega
      · simp only [List.length_append] at hx
        have hls : ls.length < size x - i := by omega
        rw [← List.append_assoc]
        exact (hread x (by omega)).bind (hread' x hls) hadmits
    · -- the first one has read its part, and what was begun of the second is completed
      simp only [List.length_append, List.length_map, List.length_cons] at hks
      have hi := (hpq.self.reads hp hd hc hrest (by omega)).1
      have hls : (t.kind :: ls).length < k - i := by
        rw [List.length_cons]
        omega
      obtain ⟨more, b, hn, hread⟩ := (hfg a).reach _ (List.cons_ne_nil _ _) hls hf
      rw [List.length_append, List.length_cons] at hn
      refine ⟨more, b, ?_, fun x hx => ?_⟩
      · simp only [List.length_append, List.length_map, List.length_cons]
        omega
      · simp only [List.length_append, List.length_map, List.length_cons] at hx
        have hmore : (t.kind :: ls ++ more).length < size x - i := by
          rw [List.length_append, List.length_cons]
          omega
        rw [List.append_assoc]
        exact ((hpq.alike x).reads hp hd hc hrest (by omega)).2.bind (hread x hmore)
          (beq_self_eq_true _)

/-- What comes first does not matter after a given token. -/
theorem anywhere (h : Completable size i k first follow p q) :
    Completable size i k anyKind follow p q :=
  h.mono (fun _ => Nat.le_refl _) (Nat.le_refl i) (Nat.le_refl k) (fun _ _ => rfl) fun _ hu => hu

/-- What was begun is completed, or started. -/
theorem complete {ks : List Kind} (h : Completable size i k first follow p q)
    (hks : ks.length < k) (hreach : Reaches p ks) :
    ∃ (more : List Kind) (a : α), i ≤ (ks ++ more).length ∧
      ∀ x, (ks ++ more).length < size x → Reads (q x) follow (ks ++ more) a := by
  cases ks with
  | nil =>
    obtain ⟨more, a, _, hi, hread⟩ := h.start
    exact ⟨more, a, hi, hread⟩
  | cons u us => exact h.reach _ (List.cons_ne_nil u us) hks hreach

/-- Nothing is read. -/
theorem pure (a : α) (hfirst : ∀ u, follow u = true → first u = true) :
    Completable size 0 k first follow (Pure.pure a) (fun _ => Pure.pure a) where
  self := Alike.pure a
  alike _ := Alike.pure a
  start := ⟨[], a, hfirst, Nat.le_refl 0, fun _ _ => Reads.pure a⟩
  reach _ hne _ hreach := absurd (hreach.eq_nil fun _ => rfl) hne

/-- The current token is looked at, and nothing depends on it where something is
started. -/
theorem look {f : Kind → Parser α} {g : ι → Kind → Parser α} {s : ι → Parser α}
    (hfg : ∀ u, Completes size i k follow (f u) (g · u)) (hstart : Starts size i first follow s)
    (hs : ∀ x u, first u = true → g x u = s x) :
    Completable size i k first follow (kind >>= f) (fun x => kind >>= g x) where
  toCompletes := Completes.look hfg
  start := by
    obtain ⟨more, a, hadmits, hi, hread⟩ := hstart
    refine ⟨more, a, hadmits, hi, fun x hx => ?_⟩
    cases more with
    | nil =>
      intro u rest hu
      show g x u (Cursor.atKinds (u :: rest)) = _
      rw [hs x u (hadmits u hu)]
      exact hread x hx u rest hu
    | cons u us =>
      refine Reads.kind_cons ?_
      rw [hs x u hadmits]
      exact hread x hx

/-- A choice by the current token, which goes one way where something is started. -/
theorem choose {choice : Cursor → Bool} {b : Kind → Bool} (hchoice : ∀ c, choice c = b c.kind)
    {p p' : Parser α} {q q' : ι → Parser α} (v : Bool)
    (hp : Completes size i k follow p q) (hp' : Completes size i k follow p' q')
    (hstart : Starts size i first follow (fun x => if v = true then q x else q' x))
    (hfirst : ∀ u, first u = true → b u = v) :
    Completable size i k first follow (get >>= fun c => if choice c = true then p else p')
      (fun x => get >>= fun c => if choice c = true then q x else q' x) := by
  simp only [get_eq_kind hchoice]
  refine look (fun u => ?_) hstart fun x u hu => by rw [hfirst u hu]
  cases b u with
  | true => exact hp
  | false => exact hp'

/-- **A token that may be there.** It is left out of what is started. -/
theorem eat {t : Kind} (ht : t.isContent = true) {f : Bool → Parser α} {g : ι → Bool → Parser α}
    (hmiss : Completable size i k first follow (f false) (g · false))
    (hfirst : ∀ u, first u = true → unlike t u = true)
    (hhit : Completable (fun x => size x - 1) (i - 1) (k - 1) anyKind follow (f true) (g · true)) :
    Completable size i k first follow (Parser.eat t >>= f) (fun x => Parser.eat t >>= g x) where
  self := Alike.close.steps.eat (l := false) ht hhit.self hmiss.self
  alike x := by
    refine Alike.close.steps.eat (l := false) ht ?_ (hmiss.alike x)
    exact Alike.close.mono (hhit.alike x) (Nat.le_refl _) (by omega)
  start := hmiss.start.eat hfirst
  reach ks hne hks hreach := by
    cases ks with
    | nil => exact absurd rfl hne
    | cons u us =>
      cases hu : u.alike t with
      | true =>
        have hreach' : Reaches (f true) us :=
          hreach.of_advance fun c hc => eat_of_alike (hc ▸ hu)
        obtain ⟨more, a, hi, hread⟩ := hhit.complete (Nat.lt_sub_of_add_lt hks) hreach'
        refine ⟨more, a, ?_, fun x hx => (Reads.eat_hit hu).step (hread x ?_)⟩
        · rw [List.cons_append, List.length_cons]
          omega
        · exact Nat.lt_sub_of_add_lt hx
      | false =>
        have hreach' : Reaches (f false) (u :: us) :=
          hreach.of_kind fun c hc => eat_of_unlike (hc ▸ hu)
        obtain ⟨more, a, hi, hread⟩ := hmiss.reach _ hne hks hreach'
        refine ⟨more, a, hi, fun x hx => (Reads.eat_miss t).stay (hread x hx) ?_⟩
        show unlike t u = true
        unfold unlike
        rw [hu]
        rfl

/-- **A token that has to be there**, and what goes on after it. -/
theorem taking {next : Kind → Option (Parser α)} {next' : ι → Kind → Option (Parser α)}
    (hnone : ∀ t, t.isContent = false → next t = none ∧ ∀ x, next' x t = none)
    (hnext : ∀ t, (next t = none ∧ ∀ x, next' x t = none) ∨
      ∃ r s, next t = some r ∧ (∀ x, next' x t = some (s x)) ∧
        Completable (fun x => size x - 1) (i - 1) (k - 1) anyKind follow r s)
    {t : Kind} (ht : first t = true) (hstart : next t ≠ none) (expected : String)
    (context : SyntaxContext) :
    Completable size i k first follow (taking next (unexpected expected context))
      (fun x => Parser.taking (next' x) (unexpected expected context)) where
  self := by
    refine Alike.taking (fun t ht => ⟨(hnone t ht).1, (hnone t ht).1⟩) (fun t => ?_)
      (Alike.close.unexpected _ _)
    obtain ⟨hp, _⟩ | ⟨r, s, hp, _, hrs⟩ := hnext t
    · rw [hp]
      exact .none
    · rw [hp]
      exact .some hrs.self
  alike x := by
    refine Alike.taking (fun t ht => ⟨(hnone t ht).1, (hnone t ht).2 x⟩) (fun t => ?_)
      (Alike.close.unexpected _ _)
    obtain ⟨hp, hq⟩ | ⟨r, s, hp, hq, hrs⟩ := hnext t
    · rw [hp, hq]
      exact .none
    · rw [hp, hq]
      exact .some (Alike.close.mono (hrs.alike x) (Nat.le_refl _) (by omega))
  start := by
    obtain ⟨hp, _⟩ | ⟨r, s, _, hq, hrs⟩ := hnext t
    · exact absurd hp hstart
    · obtain ⟨more, a, _, hi, hread⟩ := hrs.start
      refine ⟨t :: more, a, ht, ?_, fun x hx => Reads.taking (hq x) (hread x ?_)⟩
      · rw [List.length_cons]
        omega
      · exact Nat.lt_sub_of_add_lt hx
  reach ks hne hks hreach := by
    cases ks with
    | nil => exact absurd rfl hne
    | cons u us =>
      obtain ⟨hp, _⟩ | ⟨r, s, hp, hq, hrs⟩ := hnext u
      · have hwrong : Reaches (unexpected expected context : Parser α) (u :: us) :=
          hreach.of_kind fun c hc => taking_of_none (hc ▸ hp)
        exact absurd (hwrong.eq_nil fun _ => rfl) hne
      · have hrest : Reaches r us := hreach.of_advance fun c hc => taking_of_some (hc ▸ hp)
        obtain ⟨more, a, hi, hread⟩ := hrs.complete (Nat.lt_sub_of_add_lt hks) hrest
        refine ⟨more, a, ?_, fun x hx => Reads.taking (hq x) (hread x ?_)⟩
        · rw [List.cons_append, List.length_cons]
          omega
        · exact Nat.lt_sub_of_add_lt hx

/-- What is skipped. -/
theorem skip {b : Kind → Bool} (hb : b .eof = false)
    (hfollow : ∀ u, follow u = true → b u = false) :
    Completable size 0 k follow follow (modify (Cursor.skipWhile b))
      (fun _ => modify (Cursor.skipWhile b)) where
  self := Alike.skipWhile hb
  alike _ := Alike.skipWhile hb
  start := ⟨[], (), fun _ h => h, Nat.le_refl 0, fun _ _ =>
    Reads.skipWhile (List.forall_mem_nil _) hfollow⟩
  reach ks _ _ hreach := by
    obtain ⟨c, d, used, hc, rfl, hstop⟩ := hreach
    obtain ⟨skipped, hskipped, hall⟩ := Cursor.exists_skipped b c.tokens
    have hd : c.skipWhile b = d := hstop.state
    rw [← Cursor.tokens_skipWhile, hd] at hskipped
    obtain rfl : used = skipped := List.append_cancel_right (hc.symm.trans hskipped)
    refine ⟨[], (), Nat.zero_le _, fun _ _ => ?_⟩
    rw [List.append_nil]
    exact Reads.skipWhile (List.forall_mem_map.mpr hall) hfollow

/-- **A bound on the number of items**, for which there is room in what is
completed. -/
theorem room {f : Nat → Parser α} {g : ι → Nat → Parser α}
    (hf : ∀ m n, Alike i (min k (min m n)) (f m) (f n))
    (hfg : ∀ m, Completable (fun y : ι × Nat => min (size y.1) y.2) i (min k m) first follow (f m)
      (fun y => g y.1 y.2)) :
    Completable size i k first follow (room >>= f) (fun x => Parser.room >>= g x) where
  self := Alike.room hf
  alike x := by
    refine Alike.room fun m n => Alike.close.mono ((hfg m).alike (x, n)) (Nat.le_refl _) ?_
    show _ ≤ min (min k m) (min (size x) n)
    omega
  start := by
    obtain ⟨more, a, hadmits, hi, hread⟩ := (hfg 0).start
    exact ⟨more, a, hadmits, hi, fun x hx => Reads.room fun n hn => hread (x, n) (lt_min hx hn)⟩
  reach ks hne hks hreach := by
    obtain ⟨c, d, used, hc, hkinds, hstop⟩ := hreach
    have hroom : ks.length < min k c.room := by
      have hlength := congrArg List.length hc
      rw [List.length_append, ← Cursor.room_eq_length, ← Cursor.room_eq_length, d.room_eq]
        at hlength
      rw [← hkinds, List.length_map] at hks ⊢
      omega
    obtain ⟨more, a, hi, hread⟩ := (hfg c.room).reach ks hne hroom ⟨c, d, used, hc, hkinds, hstop⟩
    exact ⟨more, a, hi, fun x hx => Reads.room fun n hn => hread (x, n) (lt_min hx hn)⟩

/-- A bound on the number of items, and what comes after them. -/
theorem room_bind {f : Nat → Parser α} {g : ι → Nat → Parser α} {r : α → Parser β}
    {s : ι → α → Parser β} (hf : ∀ m n, Alike i (min k (min m n)) (f m) (f n))
    (hfg : ∀ m, Completable (fun y : ι × Nat => min (size y.1) y.2) i (min k m) first first' (f m)
      (fun y => g y.1 y.2))
    (hrs : ∀ a, Completable (fun x => size x - i) (n - i) (k - i) first' follow (r a) (s · a)) :
    Completable size n k first follow (Parser.room >>= fun m => f m >>= r)
      (fun x => Parser.room >>= fun b => g x b >>= s x) := by
  simpa only [bind_assoc] using (room hf hfg).bind hrs

end Completable

/-- **Readers with a bound**: what they complete is found by looking at what they do
before they call themselves with a smaller bound. -/
theorem Completes.bounded {γ : Type} {r : Nat → γ → Parser α} {s : ι → Nat → γ → Parser α}
    (hzero : ∀ y, r 0 y = throw .tooDeep)
    (hsucc : ∀ m, (∀ y, Completes (fun x : ι × Nat => min (size x.1) x.2) i (min k m) follow (r m y)
        (fun x => s x.1 x.2 y)) →
      ∀ y, Completes (fun x : ι × Nat => min (size x.1) (x.2 + 1)) i (min k (m + 1)) follow
        (r (m + 1) y) (fun x => s x.1 (x.2 + 1) y)) (m : Nat) (y : γ) :
    Completes (fun x : ι × Nat => min (size x.1) x.2) i (min k m) follow (r m y)
      (fun x => s x.1 x.2 y) := by
  induction m generalizing y with
  | zero =>
    rw [Nat.min_zero, hzero]
    refine ⟨Alike.close.tooDeep, fun x => ?_, fun ks _ hks => absurd hks (Nat.not_lt_zero _)⟩
    rw [Nat.zero_min]
    exact Alike.close.tooDeep
  | succ m ih =>
    have h := hsucc m ih y
    refine ⟨h.self, fun x => ?_, fun ks hne hks hreach => ?_⟩
    · obtain ⟨x, b⟩ := x
      cases b with
      | zero =>
        rw [Nat.min_zero, Nat.min_zero]
        exact Alike.close.other (Alike.close.mono h.self (Nat.le_refl i) (Nat.zero_le _))
      | succ b => exact h.alike (x, b)
    · obtain ⟨more, a, hi, hread⟩ := h.reach ks hne hks hreach
      refine ⟨more, a, hi, fun x hx => ?_⟩
      obtain ⟨x, b⟩ := x
      cases b with
      | zero => exact absurd (Nat.lt_of_lt_of_le hx (Nat.min_le_right _ _)) (Nat.not_lt_zero _)
      | succ b => exact hread (x, b) hx

end Garnet
