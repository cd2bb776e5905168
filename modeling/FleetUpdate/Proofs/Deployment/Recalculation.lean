import FleetUpdate.Proofs.Deployment.Ascending
import FleetUpdate.Proofs.Deployment.Driving
import FleetUpdate.Proofs.Deployment.Recorded
import FleetUpdate.Proofs.Deployment.Unchanged
import FleetUpdate.Proofs.Store.Tenants

/-!
# Recalculations that change nothing

Every transition brings the update state of a target up to date with the action that it ends.  A
recalculation derives the state anew, from the action that the store names as the one that ended
last.  Most of the time the two agree and there is nothing to write (`Store.RecalculatesIdly`).

They differ just for a target that is misjudged (`Store.Misjudges`): the last of its actions has ended,
but another one with a greater id had ended before it in the same millisecond, and speaks of another
outcome (`Timeline.recalculation_idle_iff`).  In the immediate mode actions end in the order of their
ids, so this does not happen; where a device may have several actions at once it does
(`tied_recalculated`).
-/

namespace FleetUpdate

open Program

namespace Store

variable {s s' : Store} {x c : String} {ctx : Context} {now time : Instant} {t : Target}
  {es : List Ending} {times : Instant → Prop} {h : Chronicle}

/-! ## One recalculation -/

/-- The update state that follows from the actions of a target as they are stored. -/
def derivedStatus (s : Store) (x c : String) (t : Target) : UpdateStatus :=
  deriveUpdateStatus (!(s.activeOf x c).isEmpty) (s.lastEnded x c) t.assigned t.installed
    t.lastContact.isSome

/-- A recalculation plans nothing just if this is the state that is stored. -/
theorem planRecalculation_eq_none_iff (hs : s.Consistent) :
    Transition.planRecalculation (.ofActions t (s.activeOf x c)) (s.lastEnded x c) = none ↔
      s.derivedStatus x c t = t.updateStatus := by
  unfold Transition.planRecalculation
  rw [active_ofActions_activeOf hs]
  show (if s.derivedStatus x c t = t.updateStatus then none else some _) = none ↔ _
  split
  · rename_i heq
    exact iff_of_true rfl heq
  · rename_i hne
    exact iff_of_false (Option.some_ne_none _) hne

/-- Whoever asks for it and whatever the clock shows: a recalculation of the target, if it is stored,
gives it back as it is; nothing is written, and nothing is published. -/
def RecalculatesIdly (s : Store) (x c : String) : Prop :=
  ∀ ctx t (times : Instant → Prop), ctx.tenantId = x → s.target? x c = some t →
    (recalculateStatus ctx c).Leaves times (fun t' s' es => t' = t ∧ s' = s ∧ es = [])
      (fun _ _ _ => False) s

/-- The view of a target that is stored. -/
theorem leaves_viewStored {E : DeploymentError → Store → List Event → Prop}
    {Q : TargetView → Store → List Event → Prop} (hx : ctx.tenantId ≠ "")
    (ht : s.target? ctx.tenantId c = some t)
    (hQ : Q (.ofActions t (s.activeOf ctx.tenantId c)) s []) :
    (loadView ctx c).Leaves times Q E s := by
  refine leaves_loadView (fun _ u hu => ?_) (fun hno => absurd hno hx) fun hnone => ?_
  · obtain rfl := Option.some.inj (hu.symm.trans ht)
    exact hQ
  · cases hnone.symm.trans ht

/-- If the state that follows is the one that is stored, the recalculation is done. -/
theorem leaves_recalculate_of_eq (hs : s.Consistent) (hx : ctx.tenantId ≠ "")
    (ht : s.target? ctx.tenantId c = some t)
    (heq : s.derivedStatus ctx.tenantId c t = t.updateStatus) :
    (recalculateStatus ctx c).Leaves times (fun t' s' es => t' = t ∧ s' = s ∧ es = [])
      (fun _ _ _ => False) s := by
  refine leaves_bind.mpr (leaves_viewStored hx ht ?_)
  refine leaves_bind.mpr (leaves_lookup (fun _ => rfl) (fun _ => ?_) fun hno => absurd hno hx)
  dsimp only
  rw [active_ofActions_activeOf hs]
  split
  · exact ⟨rfl, rfl, rfl⟩
  · rename_i hne
    exact absurd heq hne

/-- The change of a recalculation stores the state that follows. -/
theorem exists_target?_of_recalculated (hs : s.Consistent) (ht : s.target? ctx.tenantId c = some t)
    {p : Plan} (hp : Transition.planRecalculation (.ofActions t (s.activeOf ctx.tenantId c))
      (s.lastEnded ctx.tenantId c) = some p) (now : Instant) :
    ∃ t', (s.written ctx now p.change).target? ctx.tenantId c = some t' ∧
      t'.updateStatus = s.derivedStatus ctx.tenantId c t := by
  have hchange := Transition.planRecalculation_eq_some hp
  rw [active_ofActions_activeOf hs] at hchange
  have hkey : t.key = (ctx.tenantId, p.change.controllerId) := by
    rw [hchange]
    exact congrArg (·, t.controllerId) (Prod.mk.inj (key_of_target? ht)).1
  have hstate : (p.change.writeTarget ctx now t).state = p.change.targetState.getD t.state :=
    TargetChange.state_writeTarget hkey
  refine ⟨p.change.writeTarget ctx now t, ?_, ?_⟩
  · rw [target?_written, ht, Option.map_some]
  · rw [hchange] at hstate ⊢
    exact congrArg TargetState.updateStatus hstate

/-- Otherwise it is written. -/
theorem leaves_recalculate_of_ne (hs : s.Consistent) (hx : ctx.tenantId ≠ "")
    (ht : s.target? ctx.tenantId c = some t)
    (hne : s.derivedStatus ctx.tenantId c t ≠ t.updateStatus) :
    (recalculateStatus ctx c).Leaves times (fun _ s' _ => ∃ t', s'.target? ctx.tenantId c = some t' ∧
      t'.updateStatus = s.derivedStatus ctx.tenantId c t) (fun _ _ _ => False) s := by
  refine leaves_bind.mpr (leaves_viewStored hx ht ?_)
  refine leaves_bind.mpr (leaves_lookup (fun _ => rfl) (fun _ => ?_) fun hno => absurd hno hx)
  dsimp only
  split
  · rename_i heq
    rw [active_ofActions_activeOf hs] at heq
    exact absurd heq hne
  · rename_i hview
    have hp : (Transition.recalculate (s.lastEnded ctx.tenantId c)).plan?
        (.ofActions t (s.activeOf ctx.tenantId c)) = some ⟨_, []⟩ := if_neg hview
    have hacc := accepts_fresh_plan hs ht (fun a ha => by cases ha) hp fun n hn => by cases hn
    refine leaves_bind.mpr ((leaves_commitPlan hs hx (.recalculate c)
      ⟨_, _, .recalculate, hp, current_ofActions hs ht, fun a ha => by cases ha⟩ hacc).mono ?_
      fun _ _ _ hno => hno)
    rintro k s' es ⟨now, -, rfl, -⟩
    have hstored := exists_target?_of_recalculated hs ht hp now
    exact leaves_bind.mpr (leaves_log.mpr (leaves_done.mpr hstored))

/-- A recalculation changes nothing just if the state that follows is the one that is stored. -/
theorem recalculatesIdly_iff (hs : s.Consistent) (hblank : s.target? "" c = none) :
    s.RecalculatesIdly x c ↔
      ∀ t, s.target? x c = some t → s.derivedStatus x c t = t.updateStatus := by
  constructor
  · intro hidle t ht
    by_contra hne
    obtain ⟨ctx, rfl⟩ : ∃ ctx : Context, ctx.tenantId = x := ⟨⟨x, ""⟩, rfl⟩
    have hx : ctx.tenantId ≠ "" := by
      intro hx
      rw [hx, hblank] at ht
      cases ht
    have hruns := ends_runOn (· = 0) rfl (recalculateStatus ctx c) s
    have hsame := (hidle ctx t _ rfl ht).of_ends hruns
    have hwritten := (leaves_recalculate_of_ne hs hx ht hne).of_ends hruns
    generalize ((recalculateStatus ctx c).runOn 0 s).result = r at hsame hwritten
    cases r with
    | error e => exact hsame
    | ok t' =>
      obtain ⟨-, hstate, -⟩ := hsame
      obtain ⟨u, hu, hstatus⟩ := hwritten
      rw [hstate] at hu
      obtain rfl := Option.some.inj (ht.symm.trans hu)
      exact hne hstatus.symm
  · rintro hderived ctx t times rfl ht
    refine leaves_recalculate_of_eq hs (fun hx => ?_) ht (hderived t ht)
    rw [hx, hblank] at ht
    cases ht

/-! ## Recalculations that are done while nothing is to be done -/

/-- A later store, when nobody comes in between. -/
def Stays (s s' : Store) : Prop := s' = s ∧ s.Consistent

theorem rely_stays : Rely Stays where
  refl := fun hs => ⟨rfl, hs⟩
  trans := fun h h' => ⟨h'.1.trans h.1, h.2⟩
  consistent := fun h => h.1 ▸ h.2

/-- Where every recalculation is idle none plans a change. -/
theorem RecalculatesIdly.not_readPlan (hs : s.Consistent) (hblank : ∀ c, s.target? "" c = none)
    (hidle : ∀ x c, s.RecalculatesIdly x c) {change : TargetChange} {tr : Transition}
    {v : TargetView} : ¬ s.ReadPlan Stays ctx (.recalculate c) change tr v := by
  intro hread
  obtain ⟨events, hp⟩ := hread.plan
  have hreadings := hread.readings
  cases hread.plans with
  | @recalculate _ ended =>
    cases hreadings with
    | @intro s₀ s₁ s₂ s₃ t _ _ htarget h₂ h₃ hconsults h₄ =>
      obtain ⟨rfl, -⟩ := h₄
      obtain ⟨rfl, -⟩ := h₃
      obtain ⟨rfl, -⟩ := h₂
      have hderived := (recalculatesIdly_iff hs (hblank _)).mp (hidle _ _) t htarget
      obtain rfl : ended = _ := hconsults
      cases hp.symm.trans ((planRecalculation_eq_none_iff hs).mpr hderived)

/-- So a recalculation leaves such a store as it is, and all targets tallying. -/
theorem TalliesWith.afterRecalculation (hs : s.TalliesWith h) (hblank : ∀ c, s.target? "" c = none)
    (hidle : ∀ x c, s.RecalculatesIdly x c) {success : Option Instant} {readings : List Instant}
    {ops : List Op} (hmakes : (recalculateStatus ctx c).Makes s readings ops) :
    (s.afterAll ops).TalliesWith (h.afterAll success s ops) := by
  have hone : (Call.recalculate c).IsAboutOne := trivial
  have hasks := Call.heeds_singly rely_stays hone hs.consistent hmakes
  clear hmakes
  -- each request is a lookup, and the store stays what it is
  induction ops generalizing h with
  | nil => exact hs
  | cons o ops ih =>
    obtain ⟨hfirst, hrest⟩ := hasks
    have hlookup : o.request.IsLookup := by
      refine hfirst.resolve_right ?_
      rintro ⟨change, tr, v, -, hread⟩
      exact RecalculatesIdly.not_readPlan hs.consistent hblank hidle hread
    have hsame : s.after o = s := perform_of_isLookup s o.ctx o.now hlookup
    have hquiet : o.request.CommitsNothing := hlookup.commitsNothing
    have hafter : s.TalliesWith (h.after success s o) := by
      refine ⟨hs.consistent, fun x c => ?_⟩
      have hclient := (hs.target x c).client hs.consistent hquiet success
      rwa [hsame] at hclient
    rw [hsame] at hrest
    rw [afterAll_cons, Chronicle.afterAll, hsame]
    exact ih hafter hrest

/-! ## Misjudged targets -/

/-- The store misjudges a target: the last of its actions has ended, but another one that ended in the
same millisecond outranks it, and something else would follow from that one. -/
def Misjudges (s : Store) (x c : String) (es : List Ending) : Prop :=
  s.activeOf x c = [] ∧ ∃ t a last, s.target? x c = some t ∧ Outranks es a last ∧
    deriveUpdateStatus false (some a) t.assigned t.installed t.lastContact.isSome ≠
      deriveUpdateStatus false (some last) t.assigned t.installed t.lastContact.isSome

/-- Where a target tallies with its endings, recalculating it changes nothing just if it is not
misjudged. -/
theorem TalliesAt.recalculatesIdly_iff (hs : s.Consistent) (hblank : ∀ c, s.target? "" c = none)
    (ht : s.TalliesAt x c es) (hes : InOrder es now) :
    s.RecalculatesIdly x c ↔ ¬ s.Misjudges x c es := by
  rw [Store.recalculatesIdly_iff hs (hblank c)]
  constructor
  · rintro hderived ⟨hnone, t, a, last, htarget, houtranks, hne⟩
    have hstatus := (ht.target t htarget).status
    have hsame := hderived t htarget
    rw [derivedStatus, lastEnded_of_outranks hs ht.ended hes houtranks, hstatus,
      houtranks.getLast?, hnone] at hsame
    exact hne hsame
  · intro hnot t htarget
    rw [(ht.target t htarget).status, derivedStatus]
    cases hactive : s.activeOf x c with
    | cons a as => rfl
    | nil =>
      rcases lastEnded_eq_or_outranks hs ht.ended hes with heq | ⟨a, last, heq, houtranks⟩
      · rw [heq]
      · rw [heq, houtranks.getLast?]
        by_contra hne
        exact hnot ⟨hactive, t, a, last, htarget, houtranks, hne⟩

/-- There are no targets without a tenant. -/
theorem target?_blank_after (hs : s.Consistent) (hblank : s.target? "" c = none) (o : Op) :
    (s.after o).target? "" c = none := by
  by_cases hx : o.ctx.tenantId = ""
  · rw [Store.after, perform, if_pos hx]
    exact hblank
  · have hother : ¬ o.request.Concerns o.ctx "" c := fun hr => hx (Request.tenantId_of_concerns hr)
    exact (SameAt.perform hs hother).target.trans hblank

end Store

/-! ## Timelines -/

/-- A moment: the store, the chronicle that has been kept until then, and the time. -/
structure Moment where
  store : Store
  chronicle : Chronicle
  time : Instant

/-- From one moment to the next a client asks for something, but has no changes committed, or a call is
completed; the clock of the store may stand still, but it never goes backwards. -/
inductive Moment.Next (calls : Call → Prop) (m : Moment) : Moment → Prop where
  | client (o : Op) (quiet : o.request.CommitsNothing) (later : m.time ≤ o.now) :
      Next calls m ⟨m.store.after o, m.chronicle.after none m.store o, o.now⟩
  | call (ctx : Context) {call : Call} (hcall : calls call) {readings : List Instant}
      {ops : List Op} (makes : (call.program ctx).Makes m.store readings ops) {time : Instant}
      (clock : (m.time :: (ops.map Op.now ++ [time])).IsChain (· ≤ ·)) :
      Next calls m ⟨m.store.afterAll ops,
        m.chronicle.afterAll (call.dated readings).success? m.store ops, time⟩

/-- When a task is done, as the store records it. -/
def Task.time : Task → Instant
  | .call _ _ time => epochMillis time
  | .request o => o.now

/-- The moments of a run from the empty store on: those that have passed, the latest first, and the
present one. -/
inductive Timeline (calls : Call → Prop) : List Moment → Moment → Prop where
  | start (time : Instant) : Timeline calls [] ⟨.empty, fun _ _ => [], time⟩
  | next {past : List Moment} {m m' : Moment} (before : Timeline calls past m)
      (step : m.Next calls m') : Timeline calls (m :: past) m'

/-- All targets tally with the chronicle, and its endings are in order. -/
structure Moment.Sound (m : Moment) : Prop where
  tallies : m.store.TalliesWith m.chronicle
  inOrder : ∀ x c, InOrder (m.chronicle x c) m.time
  blank : ∀ c, m.store.target? "" c = none

/-- Every recalculation would change nothing. -/
def Moment.IsIdle (m : Moment) : Prop := ∀ x c, m.store.RecalculatesIdly x c

/-- No target is misjudged. -/
def Moment.IsFair (m : Moment) : Prop := ∀ x c, ¬ m.store.Misjudges x c (m.chronicle x c)

namespace Moment

variable {calls : Call → Prop} {m m' : Moment}

theorem Sound.isIdle_iff (h : m.Sound) : m.IsIdle ↔ m.IsFair :=
  forall₂_congr fun x c =>
    (h.tallies.target x c).recalculatesIdly_iff h.tallies.consistent h.blank (h.inOrder x c)

/-- As long as recalculations change nothing, what is done leaves all targets tallying. -/
theorem Sound.next (h : m.Sound) (hidle : m.IsIdle) (hstep : m.Next calls m') : m'.Sound := by
  have hs := h.tallies.consistent
  cases hstep with
  | client o quiet later =>
    refine ⟨⟨hs.after o, fun x c => (h.tallies.target x c).client hs quiet none⟩, fun x c => ?_,
      fun c => Store.target?_blank_after hs (h.blank c) o⟩
    exact Store.inOrder_after hs (h.inOrder x c) later
  | @call ctx call _ readings ops makes time clock =>
    refine ⟨?_, fun x c => Store.inOrder_afterAll hs (h.inOrder x c) clock, fun c => ?_⟩
    · cases call with
      | recalculate c => exact h.tallies.afterRecalculation h.blank hidle makes
      | _ => exact h.tallies.call (fun d heq => by cases heq) makes
    · exact (Store.afterAll_induction (P := fun s => s.Consistent ∧ s.target? "" c = none)
        ⟨hs, h.blank c⟩ fun o _ s hs =>
          ⟨hs.1.after o, Store.target?_blank_after hs.1 hs.2 o⟩).2

end Moment

namespace Timeline

variable {calls : Call → Prop} {past : List Moment} {m : Moment}

/-- Where all recalculations until now would have changed nothing, all targets tally. -/
theorem sound (h : Timeline calls past m) (hidle : ∀ p ∈ past, p.IsIdle) : m.Sound := by
  induction h with
  | start time =>
    exact ⟨⟨.empty, fun _ _ => .of_gone .empty rfl⟩, fun _ _ => .nil time, fun _ => rfl⟩
  | next _ step ih =>
    obtain ⟨hlast, hbefore⟩ := List.forall_mem_cons.mp hidle
    exact (ih hbefore).next hlast step

theorem forall_isIdle_iff (h : Timeline calls past m) :
    (∀ p ∈ m :: past, p.IsIdle) ↔ ∀ p ∈ m :: past, p.IsFair := by
  induction h with
  | start time => simpa using ((start time : Timeline calls [] _).sound (by simp)).isIdle_iff
  | @next past m m' before step ih =>
    have hcons (P : Moment → Prop) : (∀ p ∈ m' :: m :: past, P p) ↔ P m' ∧ ∀ p ∈ m :: past, P p :=
      List.forall_mem_cons
    rw [hcons, hcons, ← ih]
    exact and_congr_left fun hidle => ((before.next step).sound hidle).isIdle_iff

/-- In the immediate mode the endings on record ascend at all times. -/
theorem ascends (h : Timeline calls past m) (himmediate : ∀ call, calls call → call.IsImmediate) :
    ∀ p ∈ m :: past, p.store.Consistent ∧ ∀ x c, p.store.Ascends x c (p.chronicle x c) := by
  induction h with
  | start time =>
    refine List.forall_mem_singleton.mpr ⟨.empty, fun x c => .of_gone ⟨?_, ?_, ?_⟩⟩
    · exact Nat.zero_le 1
    · intro t a ht
      cases ht
    · intro t ht
      cases ht
  | @next past m m' _ step ih =>
    obtain ⟨hs, hascends⟩ := ih m List.mem_cons_self
    refine List.forall_mem_cons.mpr ⟨?_, ih⟩
    cases step with
    | client o quiet _ => exact ⟨hs.after o, fun x c => (hascends x c).client hs quiet none⟩
    | @call ctx call hcall readings ops makes _ _ =>
      have hkept := Store.ascends_kept (call.isImmediate_dated (himmediate call hcall) readings)
      exact ⟨hs.afterAll ops, fun x c => hkept.completed ctx hs makes (hascends x c)⟩

/-- Tasks that are done one after the other at times that never go backwards make a timeline longer. -/
theorem exists_afterTasks (h : Timeline calls past m) {tasks : List Task}
    (hraw : ∀ task ∈ tasks, ¬ task.IsRaw)
    (hcalls : ∀ ctx call time, .call ctx call time ∈ tasks → calls call)
    (hclock : (m.time :: tasks.map Task.time).IsChain (· ≤ ·)) :
    ∃ past' m', Timeline calls past' m' ∧ m'.store = m.store.afterTasks tasks := by
  induction tasks generalizing past m with
  | nil => exact ⟨past, m, h, rfl⟩
  | cons task tasks ih =>
    obtain ⟨hfirst, hrest⟩ := List.forall_mem_cons.mp hraw
    rw [List.map_cons, List.isChain_cons_cons] at hclock
    obtain ⟨hlater, hclock⟩ := hclock
    obtain ⟨m', hstep, hstore, htime⟩ : ∃ m', m.Next calls m' ∧
        m'.store = m.store.afterTask task ∧ m'.time = task.time := by
      cases task with
      | request o => exact ⟨_, .client o (Task.commitsNothing hfirst) hlater, rfl, rfl⟩
      | call ctx call time =>
        obtain ⟨readings, ops, hmakes, hops, hstate⟩ :=
          (ends_runOn (· = time) rfl (call.program ctx) m.store).exists_makes
        have hnow : ∀ t ∈ ops.map Op.now ++ [epochMillis time], t = epochMillis time := by
          intro t ht
          rcases List.mem_append.mp ht with ht | ht
          · obtain ⟨o, ho, rfl⟩ := List.mem_map.mp ht
            obtain ⟨_, rfl, hnow⟩ := hops o ho
            exact hnow
          · exact List.mem_singleton.mp ht
        have hchain : (m.time :: (ops.map Op.now ++ [epochMillis time])).IsChain (· ≤ ·) := by
          refine List.Pairwise.isChain (List.pairwise_cons.mpr ⟨fun t ht => ?_, ?_⟩)
          · rw [hnow t ht]
            exact hlater
          · refine List.pairwise_of_forall_mem_list fun t ht t' ht' => ?_
            exact Int.le_of_eq ((hnow t ht).trans (hnow t' ht').symm)
        refine ⟨_, .call ctx (hcalls ctx call time List.mem_cons_self) hmakes hchain, ?_, rfl⟩
        exact hstate.symm
    rw [← htime] at hclock
    obtain ⟨past', m'', htimeline, hlast⟩ := ih (h.next hstep) hrest
      (fun ctx call time hmem => hcalls ctx call time (List.mem_cons_of_mem _ hmem)) hclock
    refine ⟨past', m'', htimeline, ?_⟩
    rw [hlast, hstore]
    rfl

/-- Calls are completed one after the other, and clients ask for whatever they like but have no changes
committed, under a clock that may stand still but never goes backwards.  All recalculations, whenever
and whoever asks for them, would change nothing, exactly as long as no target is misjudged; and where
all assignments are in the immediate mode, they would change nothing. -/
theorem recalculation_idle_iff (h : Timeline calls past m) :
    ((∀ p ∈ m :: past, p.IsIdle) ↔ ∀ p ∈ m :: past, p.IsFair) ∧
      ((∀ call, calls call → call.IsImmediate) → ∀ p ∈ m :: past, p.IsIdle) := by
  refine ⟨h.forall_isIdle_iff, fun himmediate => h.forall_isIdle_iff.mpr fun p hp x c => ?_⟩
  rintro ⟨-, t, a, last, -, houtranks, -⟩
  exact ((h.ascends himmediate p hp).2 x c).not_outranks houtranks

end Timeline

/-! ## Two actions that end in the same millisecond -/

/-- The device starts with one distribution set, and then gets another one while it is asked to stop.
All in the same millisecond it reports that the new one has failed and agrees to stop with the old one,
so that the older action ends last. -/
def tied : List Task :=
  Store.sampleOps.map .request ++
    [.call Store.sampleContext (.assign .patient (.forced 1 ["device"])) 2,
      .call Store.sampleContext (.act 1 (.report ⟨.running, [], none, some 2⟩)) 2,
      .call Store.sampleContext (.assign .patient (.forced 2 ["device"])) 2,
      .call Store.sampleContext (.act 2 (.report ⟨.error, [], none, some 2⟩)) 2,
      .call Store.sampleContext (.act 1 (.reportCancel ⟨.canceled, [], none, some 2⟩)) 2]

theorem tied_timeline : ∃ past m, Timeline (fun _ => True) past m ∧
    m.store = Store.empty.afterTasks tied :=
  (Timeline.start 0).exists_afterTasks (by simp [tied, Store.sampleOps, Task.IsRaw])
    (fun _ _ _ _ => trivial) (by decide)

theorem tied_stored : ((Store.empty.afterTasks tied).target? "acme" "device").map
    (fun t => (t.updateStatus, t.revision)) = some (.unknown, 6) := by
  decide +kernel

theorem tied_result : ((recalculateStatus Store.sampleContext "device").runOn 2
    (Store.empty.afterTasks tied)).result.map (fun t => (t.updateStatus, t.revision)) =
      .ok (.error, 7) := by
  decide +kernel

/-- The device is unknown and has the revision 6; a recalculation finds the error of the younger
action, and writes it. -/
theorem tied_recalculated :
    (∃ past m, Timeline (fun _ => True) past m ∧ m.store = Store.empty.afterTasks tied) ∧
    ((Store.empty.afterTasks tied).target? "acme" "device").map
      (fun t => (t.updateStatus, t.revision)) = some (.unknown, 6) ∧
    ((recalculateStatus Store.sampleContext "device").runOn 2
      (Store.empty.afterTasks tied)).result.map (fun t => (t.updateStatus, t.revision)) =
        .ok (.error, 7) :=
  ⟨tied_timeline, tied_stored, tied_result⟩

/-- The recalculation changes the target, so at some moment a target is misjudged. -/
theorem tied_misjudges : ∃ past m, Timeline (fun _ => True) past m ∧
    m.store = Store.empty.afterTasks tied ∧ ¬ m.IsIdle ∧
    ∃ p ∈ m :: past, ∃ x c, p.store.Misjudges x c (p.chronicle x c) := by
  obtain ⟨past, m, htimeline, hstore⟩ := tied_timeline
  have hbusy : ¬ m.IsIdle := by
    intro hidle
    have hrecalculated := tied_result
    obtain ⟨t, ht, hbefore⟩ := Option.map_eq_some_iff.mp tied_stored
    rw [← hstore] at ht hrecalculated
    have hends := ends_runOn (· = 2) rfl (recalculateStatus Store.sampleContext "device") m.store
    have hsame := (hidle "acme" "device" Store.sampleContext t _ rfl ht).of_ends hends
    generalize ((recalculateStatus Store.sampleContext "device").runOn 2 m.store).result = r at *
    cases r with
    | error e => exact hsame
    | ok t' =>
      obtain ⟨rfl, -, -⟩ := hsame
      cases hbefore.symm.trans (Except.ok.inj hrecalculated)
  refine ⟨past, m, htimeline, hstore, hbusy, ?_⟩
  obtain ⟨hiff, -⟩ := htimeline.recalculation_idle_iff
  by_contra hfair
  refine hbusy (hiff.mpr (fun p hp x c hmisjudges => ?_) m List.mem_cons_self)
  exact hfair ⟨p, hp, x, c, hmisjudges⟩

end FleetUpdate
