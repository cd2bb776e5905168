import FleetUpdate.Proofs.Deployment.Runs
import FleetUpdate.Proofs.Deployment.Sights

/-!
# What programs have done

`Program.Meets` says what a program among others asks for, and what it returns if it returns.
`Program.Yields R times Q E s` says that it comes to an end, and how: while others only lead to
stores that `R` allows, and whenever the clock shows one of the given times, the program returns as
`Q` says or fails as `E` says, and both may speak of what it has done by then.

What a program does are requests, each at the store that answers it, and notes (`Deed`).  Of a
request for several changes `Deed.turns` shows the store before and after each of them, so what
becomes of the rows can be counted change by change.
-/

namespace FleetUpdate

/-- The actions of a later store whose ids had not been issued yet. -/
def Store.newIn (s s' : Store) : List Action :=
  s'.actions.filter fun a => decide (s.lastActionId < a.id)

/-- The stores before and after each of several changes. -/
def Store.turns (s : Store) (ctx : Context) (now : Instant) :
    List TargetChange → List (Store × Store)
  | [] => []
  | c :: cs => (s, (s.commit ctx now c).2) :: turns (s.commit ctx now c).2 ctx now cs

/-- Notes that follow each other are counted together. -/
theorem Counter.total_append (c : Counter) (ns ns' : List Note) :
    c.total (ns ++ ns') = c.total ns + c.total ns' := by
  simp only [total, ← List.sum_eq_foldr, List.map_append, List.sum_append]

theorem Counter.total_counted (c d : Counter) (n : Nat) (ns : List Note) :
    c.total (.counted d n :: ns) = (if d = c then n else 0) + c.total ns := rfl

theorem Counter.total_published (c : Counter) (es : List Event) :
    c.total (es.map .published) = 0 := by
  induction es with
  | nil => rfl
  | cons e es ih => exact (Nat.zero_add _).trans ih

/-- What a program does: it asks a store for something, or makes a note. -/
inductive Deed where
  | asked (ctx : Context) (r : Request) (now : Instant) (s : Store)
  | noted (n : Note)

namespace Deed

/-- The stores before and after a deed, and between the changes of one request. -/
def turns : Deed → List (Store × Store)
  | asked ctx (.applyChanges cs) now s => if ctx.tenantId = "" then [] else s.turns ctx now cs
  | asked ctx r now s => [(s, (s.perform ctx now r).2)]
  | noted _ => []

/-- The actions that something has happened to, change by change; `f` picks them from the stores
before and after a change. -/
def happened (f : Store → Store → List Action) (ds : List Deed) : List Action :=
  (ds.flatMap turns).flatMap fun x => f x.1 x.2

/-- The actions that deeds have created, in order. -/
abbrev created (ds : List Deed) : List Action := happened Store.newIn ds

/-- The notes among deeds. -/
def notes (ds : List Deed) : List Note :=
  ds.filterMap fun
    | noted n => some n
    | asked .. => none

/-- How much deeds have counted. -/
def counted (c : Counter) (ds : List Deed) : Nat := c.total (notes ds)

section

variable {f : Store → Store → List Action} {c : Counter}

@[simp] theorem happened_nil : happened f [] = [] := rfl

@[simp] theorem happened_append (ds ds' : List Deed) :
    happened f (ds ++ ds') = happened f ds ++ happened f ds' := by
  simp [happened, List.flatMap_append]

@[simp] theorem happened_noted (n : Note) (ds : List Deed) :
    happened f (noted n :: ds) = happened f ds := rfl

@[simp] theorem happened_map_noted (ns : List Note) : happened f (ns.map noted) = [] := by
  induction ns with
  | nil => rfl
  | cons n ns ih => exact ih

/-- Whatever is noted after a deed, nothing more happens. -/
@[simp] theorem happened_cons_notes (d : Deed) (ns : List Note) :
    happened f (d :: ns.map noted) = happened f [d] := by
  rw [← List.singleton_append, happened_append, happened_map_noted, List.append_nil]

/-- A request for anything but changes is a single step. -/
theorem happened_request {r : Request} (hr : ∀ cs, r ≠ .applyChanges cs) (ctx : Context)
    (now : Instant) (s : Store) :
    happened f [asked ctx r now s] = f s (s.perform ctx now r).2 := by
  cases r with
  | applyChanges cs => exact absurd rfl (hr cs)
  | _ => simp [happened, turns]

theorem happened_changes {s : Store} {ctx : Context} (hx : ctx.tenantId ≠ "") (now : Instant)
    (cs : List TargetChange) : happened f [asked ctx (.applyChanges cs) now s] =
      (s.turns ctx now cs).flatMap fun x => f x.1 x.2 := by
  simp [happened, turns, if_neg hx]

@[simp] theorem notes_map_noted (ns : List Note) : notes (ns.map noted) = ns := by
  induction ns with
  | nil => rfl
  | cons n ns ih => exact congrArg (n :: ·) ih

@[simp] theorem counted_asked (ctx : Context) (r : Request) (now : Instant) (s : Store)
    (ds : List Deed) : counted c (asked ctx r now s :: ds) = counted c ds := rfl

@[simp] theorem counted_counted (d : Counter) (n : Nat) (ds : List Deed) :
    counted c (noted (.counted d n) :: ds) = (if d = c then n else 0) + counted c ds := rfl

@[simp] theorem counted_logged (line : Notice) (ds : List Deed) :
    counted c (noted (.logged line) :: ds) = counted c ds := Nat.zero_add _

@[simp] theorem counted_opened (span : AssignmentSpan) (ds : List Deed) :
    counted c (noted (.opened span) :: ds) = counted c ds := Nat.zero_add _

@[simp] theorem counted_append (ds ds' : List Deed) :
    counted c (ds ++ ds') = counted c ds + counted c ds' := by
  rw [counted, notes, List.filterMap_append, c.total_append]
  rfl

@[simp] theorem counted_published (es : List Event) :
    counted c ((es.map Note.published).map noted) = 0 := by
  rw [counted, notes_map_noted, c.total_published]

@[simp] theorem counted_lines (lines : List Notice) :
    counted c ((lines.map Note.logged).map noted) = 0 := by
  induction lines with
  | nil => rfl
  | cons line lines ih => exact (Nat.zero_add _).trans ih

end

/-- No action has been changed or created, and nothing has been counted. -/
structure Quiet (ds : List Deed) : Prop where
  happened : ∀ f : Store → Store → List Action,
    (∀ s s' : Store, s.Consistent → s'.actions ⊆ s.actions → f s s' = []) →
    Deed.happened f ds = []
  counted : ∀ c, Deed.counted c ds = 0

namespace Quiet

variable {ds ds' : List Deed}

theorem nil : Quiet [] := ⟨fun _ _ => rfl, fun _ => rfl⟩

theorem append (h : Quiet ds) (h' : Quiet ds') : Quiet (ds ++ ds') := by
  refine ⟨fun f hf => ?_, fun c => ?_⟩
  · rw [happened_append, h.happened f hf, h'.happened f hf]
    rfl
  · rw [counted_append, h.counted, h'.counted]

/-- A request for no changes that leaves the actions alone. -/
theorem request {s : Store} (hs : s.Consistent) {r : Request} (hr : ∀ cs, r ≠ .applyChanges cs)
    {ctx : Context} {now : Instant} (h : (s.perform ctx now r).2.actions ⊆ s.actions) :
    Quiet [asked ctx r now s] :=
  ⟨fun _ hf => (happened_request hr ctx now s).trans (hf _ _ hs h), fun _ => rfl⟩

theorem lookup {s : Store} (hs : s.Consistent) {r : Request} (hr : r.IsLookup) (ctx : Context)
    (now : Instant) : Quiet [asked ctx r now s] := by
  refine request hs ?_ ?_
  · rintro cs rfl
    exact hr
  · rw [s.perform_of_isLookup ctx now hr]
    exact List.Subset.refl _

theorem lines (lines : List Notice) : Quiet ((lines.map .logged).map .noted) :=
  ⟨fun _ _ => happened_map_noted _, fun _ => counted_lines lines⟩

end Quiet

end Deed

namespace Program

variable {α β : Type} {R : Store → Store → Prop} {times : Instant → Prop} {p : Program α}
  {Q : α → List Deed → Store → Prop} {E : DeploymentError → List Deed → Store → Prop} {s : Store}
  {ctx : Context}

/-- While others only do what `R` allows, the program is sure to return as `Q` says, or to fail as
`E` says. -/
def Yields (R : Store → Store → Prop) (times : Instant → Prop) : Program α →
    (α → List Deed → Store → Prop) → (DeploymentError → List Deed → Store → Prop) → Store → Prop
  | done a, Q, _, s => Q a [] s
  | fail e, _, E, s => E e [] s
  | ask ctx r next, Q, E, s => ∀ s', R s s' → ∀ now,
      Yields R times (next (s'.perform ctx now r).1) (fun a ds => Q a (.asked ctx r now s' :: ds))
        (fun e ds => E e (.asked ctx r now s' :: ds)) (s'.perform ctx now r).2
  | clock next, Q, E, s => ∀ t, times t → Yields R times (next t) Q E s
  | note n next, Q, E, s =>
      Yields R times next (fun a ds => Q a (.noted n :: ds)) (fun e ds => E e (.noted n :: ds)) s

theorem Yields.mono {Q' : α → List Deed → Store → Prop}
    {E' : DeploymentError → List Deed → Store → Prop} (h : p.Yields R times Q E s)
    (hQ : ∀ a ds s, Q a ds s → Q' a ds s) (hE : ∀ e ds s, E e ds s → E' e ds s) :
    p.Yields R times Q' E' s := by
  induction p generalizing s Q E Q' E' with
  | done a => exact hQ a [] s h
  | fail e => exact hE e [] s h
  | ask ctx r next ih =>
    exact fun s' hs' now => ih _ (h s' hs' now) (fun a ds => hQ a _) fun e ds => hE e _
  | clock next ih => exact fun t ht => ih t (h t ht) hQ hE
  | note n next ih => exact ih h (fun a ds => hQ a _) fun e ds => hE e _

/-- If others do less, the program does no more. -/
theorem Yields.rely_mono {R' : Store → Store → Prop} (h : p.Yields R times Q E s)
    (hR : ∀ s s', R' s s' → R s s') : p.Yields R' times Q E s := by
  induction p generalizing s Q E with
  | done a => exact h
  | fail e => exact h
  | ask ctx r next ih => exact fun s' hs' now => ih _ (h s' (hR s s' hs') now)
  | clock next ih => exact fun t ht => ih t (h t ht)
  | note n next ih => exact ih h

/-- What a program is sure of on two accounts, it is sure of together. -/
theorem Yields.and {Q' : α → List Deed → Store → Prop}
    {E' : DeploymentError → List Deed → Store → Prop} (h : p.Yields R times Q E s)
    (h' : p.Yields R times Q' E' s) :
    p.Yields R times (fun a ds s => Q a ds s ∧ Q' a ds s) (fun e ds s => E e ds s ∧ E' e ds s)
      s := by
  induction p generalizing s Q E Q' E' with
  | done a => exact ⟨h, h'⟩
  | fail e => exact ⟨h, h'⟩
  | ask ctx r next ih => exact fun s' hs' now => ih _ (h s' hs' now) (h' s' hs' now)
  | clock next ih => exact fun t ht => ih t (h t ht) (h' t ht)
  | note n next ih => exact ih h h'

/-- A composed program does what its parts do in turn. -/
@[simp] theorem yields_bind {f : α → Program β} {Q : β → List Deed → Store → Prop} :
    (p.bind f).Yields R times Q E s ↔
      p.Yields R times (fun a ds s' => (f a).Yields R times (fun b ds' => Q b (ds ++ ds'))
        (fun e ds' => E e (ds ++ ds')) s') E s := by
  induction p generalizing s Q E with
  | done a => rfl
  | fail e => rfl
  | ask ctx r next ih =>
    exact forall_congr' fun s' => imp_congr_right fun _ => forall_congr' fun now => ih _
  | clock next ih => exact forall_congr' fun t => imp_congr_right fun _ => ih t
  | note n next ih => exact ih

/-! ## The parts of programs -/

@[simp] theorem yields_done {a : α} : (done a).Yields R times Q E s ↔ Q a [] s := Iff.rfl

@[simp] theorem yields_fail {e : DeploymentError} :
    (fail e : Program α).Yields R times Q E s ↔ E e [] s := Iff.rfl

@[simp] theorem yields_recordedNow {Q : Instant → List Deed → Store → Prop} :
    recordedNow.Yields R times Q E s ↔ ∀ t, times t → Q (epochMillis t) [] s := Iff.rfl

@[simp] theorem yields_write {n : Note} {Q : Unit → List Deed → Store → Prop} :
    (write n).Yields R times Q E s ↔ Q () [.noted n] s := Iff.rfl

@[simp] theorem yields_log {n : Notice} {Q : Unit → List Deed → Store → Prop} :
    (log n).Yields R times Q E s ↔ Q () [.noted (.logged n)] s := Iff.rfl

@[simp] theorem yields_count {c : Counter} {n : Nat} {Q : Unit → List Deed → Store → Prop} :
    (count c n).Yields R times Q E s ↔ Q () [.noted (.counted c n)] s := Iff.rfl

@[simp] theorem yields_publish {es : List Event} {Q : Unit → List Deed → Store → Prop} :
    (publish es).Yields R times Q E s ↔ Q () ((es.map .published).map .noted) s := by
  induction es generalizing Q E with
  | nil => rfl
  | cons e es ih => exact ih

@[simp] theorem yields_ofExcept {x : Except DeploymentError α} :
    (ofExcept x).Yields R times Q E s ↔
      (∀ a, x = .ok a → Q a [] s) ∧ ∀ e, x = .error e → E e [] s := by
  cases x <;> simp [ofExcept]

/-- A request that fails ends the program. -/
theorem yields_request {r : Request} {Q : r.Answer → List Deed → Store → Prop} :
    (request ctx r).Yields R times Q E s ↔ ∀ s', R s s' → ∀ now,
      match s'.perform ctx now r with
      | (.ok a, s'') => Q a [.asked ctx r now s'] s''
      | (.error e, s'') => E e.toDeployment [.asked ctx r now s'] s'' := by
  refine forall_congr' fun s' => imp_congr_right fun _ => forall_congr' fun now => ?_
  generalize s'.perform ctx now r = out
  obtain ⟨x, s''⟩ := out
  cases x <;> rfl

/-- A lookup of a tenant finds what is there and changes nothing. -/
theorem yields_lookup {r : Request} {find : Store → r.Answer}
    {Q : r.Answer → List Deed → Store → Prop} (hx : ctx.tenantId ≠ "")
    (hr : ∀ (s : Store) now, s.answer ctx now r = (.ok (find s), s))
    (h : ∀ s', R s s' → ∀ now, Q (find s') [.asked ctx r now s'] s') :
    (request ctx r).Yields R times Q E s := by
  rw [yields_request]
  intro s' hs' now
  rw [Store.perform, if_neg hx, hr]
  exact h s' hs' now

/-! ## Programs that run alone -/

/-- Alone at a store, under a clock that shows any of the given times whenever the program reads it,
the program can give a result, leave a store and have done this by then.  The store goes by a clock
of its own, of which nothing is assumed. -/
inductive Does (times : Instant → Prop) {α : Type} : Program α → Store →
    Except DeploymentError α → Store → List Deed → Prop where
  | done {a : α} {s : Store} : Does times (done a) s (.ok a) s []
  | fail {e : DeploymentError} {s : Store} : Does times (fail e) s (.error e) s []
  | ask {ctx : Context} {r : Request} {next : r.Result → Program α} {s s' : Store}
      {x : Except DeploymentError α} {ds : List Deed} (now : Instant)
      (h : Does times (next (s.perform ctx now r).1) (s.perform ctx now r).2 x s' ds) :
      Does times (ask ctx r next) s x s' (.asked ctx r now s :: ds)
  | clock {next : Instant → Program α} {s s' : Store} {x : Except DeploymentError α}
      {ds : List Deed} {t : Instant} (ht : times t) (h : Does times (next t) s x s' ds) :
      Does times (clock next) s x s' ds
  | note {n : Note} {next : Program α} {s s' : Store} {x : Except DeploymentError α}
      {ds : List Deed} (h : Does times next s x s' ds) :
      Does times (note n next) s x s' (.noted n :: ds)

/-- A program that runs alone leaves a consistent store. -/
theorem Does.consistent {s' : Store} {x : Except DeploymentError α} {ds : List Deed}
    (h : p.Does times s x s' ds) (hs : s.Consistent) : s'.Consistent := by
  induction h with
  | done => exact hs
  | fail => exact hs
  | ask now _ ih => exact ih (hs.perform _ now _)
  | clock _ _ ih => exact ih hs
  | note _ ih => exact ih hs

/-- Whatever a program that runs alone ends with, it has come to by its deeds. -/
theorem Ends.exists_does {s' : Store} {x : Except DeploymentError α} {es : List Event}
    (h : p.Ends times s x s' es) :
    ∃ ds, p.Does times s x s' ds ∧ Note.events (Deed.notes ds) = es := by
  induction h with
  | done => exact ⟨[], .done, rfl⟩
  | fail => exact ⟨[], .fail, rfl⟩
  | ask _ _ ih =>
    obtain ⟨ds, hdoes, hevents⟩ := ih
    exact ⟨_, .ask _ hdoes, hevents⟩
  | clock ht _ ih =>
    obtain ⟨ds, hdoes, hevents⟩ := ih
    exact ⟨ds, .clock ht hdoes, hevents⟩
  | note _ ih =>
    obtain ⟨ds, hdoes, rfl⟩ := ih
    exact ⟨_, .note hdoes, events_cons _ _⟩

theorem Ends.consistent {s' : Store} {x : Except DeploymentError α} {es : List Event}
    (h : p.Ends times s x s' es) (hs : s.Consistent) : s'.Consistent := by
  obtain ⟨ds, hdoes, -⟩ := h.exists_does
  exact hdoes.consistent hs

/-- A program that is sure of something, whatever others do, is so when it runs alone. -/
theorem Yields.of_does {s' : Store} {x : Except DeploymentError α} {ds : List Deed}
    (h : p.Yields R times Q E s) (hR : ∀ s : Store, s.Consistent → R s s) (hs : s.Consistent)
    (hp : p.Does times s x s' ds) :
    (∀ a, x = .ok a → Q a ds s') ∧ ∀ e, x = .error e → E e ds s' := by
  induction hp generalizing Q E with
  | done =>
    refine ⟨?_, nofun⟩
    rintro _ ⟨⟩
    exact h
  | fail =>
    refine ⟨nofun, ?_⟩
    rintro _ ⟨⟩
    exact h
  | ask now _ ih => exact ih (h _ (hR _ hs) now) (hs.perform _ now _)
  | clock ht _ ih => exact ih (h _ ht) hs
  | note _ ih => exact ih h hs

/-- What a program does alone, at a time at which the clock stands still. -/
def deeds (time : Instant) : Program α → Store → List Deed
  | done _, _ => []
  | fail _, _ => []
  | ask ctx r next, s =>
    let x := s.perform ctx (epochMillis time) r
    .asked ctx r (epochMillis time) s :: deeds time (next x.1) x.2
  | clock next, s => deeds time (next time) s
  | note n next, s => .noted n :: deeds time next s

/-- The notes of a program that runs alone are among its deeds. -/
theorem notes_deeds (time : Instant) (p : Program α) (s : Store) :
    Deed.notes (p.deeds time s) = (p.runOn time s).notes := by
  unfold runOn
  induction p generalizing s with
  | done a => rfl
  | fail e => rfl
  | ask ctx r next ih => exact ih _ _
  | clock next ih => exact ih time s
  | note n next ih => exact congrArg (n :: ·) (ih s)

/-- A clock that stands still is one that may move. -/
theorem does_runOn {time : Instant} (ht : times time) (p : Program α) (s : Store) :
    p.Does times s (p.runOn time s).result (p.runOn time s).state (p.deeds time s) := by
  unfold runOn
  induction p generalizing s with
  | done a => exact .done
  | fail e => exact .fail
  | ask ctx r next ih => exact .ask _ (ih _ _)
  | clock next ih => exact .clock ht (ih time s)
  | note n next ih => exact .note (ih s)

theorem Yields.runOn {time : Instant} (h : p.Yields R times Q E s)
    (hR : ∀ s : Store, s.Consistent → R s s) (hs : s.Consistent) (ht : times time) :
    match (p.runOn time s).result with
    | .ok a => Q a (p.deeds time s) (p.runOn time s).state
    | .error e => E e (p.deeds time s) (p.runOn time s).state := by
  obtain ⟨hQ, hE⟩ := h.of_does hR hs (does_runOn ht p s)
  split
  · exact hQ _ ‹_›
  · exact hE _ ‹_›

/-! ## Programs that only look at the clock -/

/-- A program that asks for nothing, notes nothing but lines of the log, and reads the clock once at
most, at the end. -/
def IsBrief : Program α → Prop
  | done _ | fail _ => True
  | ask .. => False
  | clock next => ∀ t, ∃ x, next t = ofExcept x
  | note n next => (∃ line, n = .logged line) ∧ next.IsBrief

theorem isBrief_bind {f : α → Program β} (x : Except DeploymentError α)
    (hf : ∀ a, (f a).IsBrief) : ((ofExcept x).bind f).IsBrief := by
  cases x with
  | ok a => exact hf a
  | error e => trivial

/-- Such a program comes to the result that it has at one of the times. -/
theorem IsBrief.yields {t₀ : Instant} (hp : p.IsBrief) (ht : times t₀)
    (hQ : ∀ a (lines : List Notice) time, times time → (p.runOn time s).result = .ok a →
      Q a ((lines.map .logged).map .noted) s)
    (hE : ∀ e (lines : List Notice) time, times time → (p.runOn time s).result = .error e →
      E e ((lines.map .logged).map .noted) s) :
    p.Yields R times Q E s := by
  induction p generalizing Q E with
  | done a => exact hQ a [] t₀ ht rfl
  | fail e => exact hE e [] t₀ ht rfl
  | ask ctx r next ih => exact hp.elim
  | clock next ih =>
    intro t ht
    obtain ⟨x, hx⟩ := hp t
    have hrun : ((Program.clock next).runOn t s).result = x := by
      show ((next t).runOn t s).result = x
      rw [hx]
      cases x <;> rfl
    rw [hx, yields_ofExcept]
    exact ⟨fun a ha => hQ a [] t ht (hrun.trans ha), fun e he => hE e [] t ht (hrun.trans he)⟩
  | note n next ih =>
    obtain ⟨⟨line, rfl⟩, hnext⟩ := hp
    exact ih hnext (fun a lines time ht h => hQ a (line :: lines) time ht h)
      fun e lines time ht h => hE e (line :: lines) time ht h

end Program

end FleetUpdate
