import FleetUpdate.Proofs.Deployment.Announce

/-!
# The course of a call

A call that nobody interrupts plans each of its changes from the store as it is and commits it right
there.  `Store.Course` is the course that such a call takes: the targets that it changes, each with
the commit and the events that follow.  A call about one target changes this target at most, an
assignment changes several, but none of them twice.

What the store holds of other targets is left alone, and no event is about them
(`Course.sameAt`, `Course.controllerId_mem`); each target on the way is changed once, from what the
store held of it in the beginning (`Course.planned_at`).
-/

namespace FleetUpdate

namespace Store

/-- A call leads from one store to another by commits for the given targets, one after the other,
and publishes their events. -/
inductive Course (ctx : Context) (call : Call) :
    List String → Store → Store → List Event → Prop where
  | nil {s : Store} : Course ctx call [] s s []
  | cons {s s' : Store} {now : Instant} {p : Plan} {k : Committed} {ids : List String}
      {es : List Event} (first : s.FreshCommit ctx call now p k)
      (rest : Course ctx call ids (s.written ctx now p.change) s' es) :
      Course ctx call (p.change.controllerId :: ids) s s' (k.resolve p.events ++ es)

namespace Course

variable {s s' : Store} {ctx : Context} {call : Call} {ids : List String} {es : List Event}
  {x c : String}

theorem consistent (h : Course ctx call ids s s' es) (hs : s.Consistent) : s'.Consistent := by
  induction h with
  | nil => exact hs
  | cons first _ ih => exact ih (hs.written first.accepts _)

/-- One commit is a course. -/
theorem single {now : Instant} {p : Plan} {k : Committed} (h : s.FreshCommit ctx call now p k) :
    Course ctx call [p.change.controllerId] s (s.written ctx now p.change) (k.resolve p.events) := by
  have hcourse := cons h (nil (s := s.written ctx now p.change))
  rwa [List.append_nil] at hcourse

/-- Targets that are not on the way are left alone. -/
theorem sameAt (h : Course ctx call ids s s' es) (hs : s.Consistent)
    (hc : ∀ d ∈ ids, (ctx.tenantId, d) ≠ (x, c)) : SameAt x c s s' := by
  induction h with
  | nil => exact .refl _
  | @cons s s' now p k ids es first rest ih =>
    have hfirst : SameAt x c s (s.written ctx now p.change) :=
      .written hs first.accepts (hc _ List.mem_cons_self)
    apply hfirst.trans
    apply ih (hs.written first.accepts now)
    intro d hd
    exact hc d (List.mem_cons_of_mem _ hd)

theorem sameAt_of_not_mem (h : Course ctx call ids s s' es) (hs : s.Consistent) (hc : c ∉ ids) :
    SameAt ctx.tenantId c s s' := by
  apply h.sameAt hs
  intro d hd hdc
  exact hc ((Prod.mk.inj hdc).2 ▸ hd)

/-- Events are about targets on the way. -/
theorem controllerId_mem (h : Course ctx call ids s s' es) (hs : s.Consistent) :
    ∀ e ∈ es, e.controllerId ∈ ids := by
  induction h with
  | nil => simp
  | cons first _ ih =>
    intro e he
    rcases List.mem_append.mp he with he | he
    · rw [first.controllerId_eq hs he]
      exact List.mem_cons_self
    · exact List.mem_cons_of_mem _ (ih (hs.written first.accepts _) e he)

/-- A target on the way is changed once, by what the call plans for it as it has stood since the
beginning. -/
theorem planned_at (h : Course ctx call ids s s' es) (hs : s.Consistent) (hids : ids.Nodup)
    (hc : c ∈ ids) :
    ∃ change s₁ now, s₁.Consistent ∧ SameAt ctx.tenantId c s s₁ ∧ change.controllerId = c ∧
      s₁.Planned ctx call change ∧ SameAt ctx.tenantId c (s₁.written ctx now change) s' := by
  induction h with
  | nil => cases hc
  | @cons s s' now p k ids es first rest ih =>
    obtain ⟨hnot, hids⟩ := List.nodup_cons.mp hids
    have hs₁ := hs.written first.accepts now
    by_cases hfirst : p.change.controllerId = c
    · subst hfirst
      obtain ⟨tr, v, hplans, hp, hcurrent, hsubject⟩ := first.planned
      exact ⟨p.change, s, now, hs, .refl s, rfl, ⟨tr, v, p, hplans, hp, rfl, hcurrent, hsubject⟩,
        rest.sameAt_of_not_mem hs₁ hnot⟩
    · have hmem : c ∈ ids := (List.mem_cons.mp hc).resolve_left (Ne.symm hfirst)
      have hbefore : SameAt ctx.tenantId c s (s.written ctx now p.change) :=
        .written hs first.accepts fun hkey => hfirst (Prod.mk.inj hkey).2
      obtain ⟨change, s₁, now', hs₁', hsame, hrest⟩ := ih hs₁ hids hmem
      exact ⟨change, s₁, now', hs₁', hbefore.trans hsame, hrest⟩

/-- A course announces what becomes of each action. -/
theorem announces (h : Course ctx call ids s s' es) (hs : s.Consistent) (hids : ids.Nodup) :
    call.Announces s s' es := by
  induction h with
  | nil => exact .of_actions rfl
  | @cons s s' now p k ids es first rest ih =>
    obtain ⟨hnot, hids⟩ := List.nodup_cons.mp hids
    have hs₁ := hs.written first.accepts now
    refine (first.announces hs).trans (ih hs₁ hids) fun i => ?_
    -- what the first commit has touched belongs to a target that is not on the way any more
    by_cases hi : i ∈ FreshCommit.touched s ctx now p.change
    · obtain ⟨a, ha, rfl⟩ := first.exists_mem_actionsOf hi
      have hlater : a ∈ s'.actionsOf ctx.tenantId p.change.controllerId := by
        rw [(rest.sameAt_of_not_mem hs₁ hnot).actionsOf_eq]
        exact ha
      right
      rw [(actionById?_eq_some_iff hs₁).mpr ⟨(mem_actionsOf.mp ha).1, rfl⟩]
      exact (actionById?_eq_some_iff (rest.consistent hs₁)).mpr ⟨(mem_actionsOf.mp hlater).1, rfl⟩
    · exact .inl (actionById?_written_of_not_mem hi)

end Course

end Store

end FleetUpdate
