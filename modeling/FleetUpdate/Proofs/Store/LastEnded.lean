import FleetUpdate.Proofs.Store.Chronicle
import Mathlib.Data.List.Chain

/-!
# The action that ended last

The store does not record in which order actions have ended.  It names as the last one the action
that was changed last, and among those that were changed in the same millisecond the one with the
greatest id (`Store.lastEnded`).  A chronicle knows the order of the commits.

Under a clock that never goes backwards the endings in a chronicle stand in the order of their times
(`InOrder.after`).  So the store and the chronicle differ only where the action that ended last was
outranked: another one, with a greater id, had ended before it in the same millisecond
(`Store.lastEnded_eq_or_outranks`).
-/

namespace FleetUpdate

/-! ## Greatest elements -/

section Greatest

variable {α : Type} {le : α → α → Bool} {as : List α} {a : α}

theorem greatest?_concat (as : List α) (a : α) :
    greatest? le (as ++ [a]) =
      match greatest? le as with
      | none => some a
      | some b => if le b a then some a else some b := by
  unfold greatest?
  rw [List.foldl_append]
  rfl

theorem greatest?_eq_none_iff : greatest? le as = none ↔ as = [] := by
  induction as using List.reverseRecOn with
  | nil => exact ⟨fun _ => rfl, fun _ => rfl⟩
  | append_singleton as a _ =>
    rw [greatest?_concat]
    split
    · simp
    · split <;> simp

/-- In a total preorder the greatest element of a list is one of its elements, and none of them is
greater. -/
theorem greatest?_spec (htotal : ∀ a b, le a b ∨ le b a)
    (htrans : ∀ a b c, le a b → le b c → le a c) (h : greatest? le as = some a) :
    a ∈ as ∧ ∀ b ∈ as, le b a := by
  induction as using List.reverseRecOn generalizing a with
  | nil => cases h
  | append_singleton as a' ih =>
    have hrefl (b : α) : le b b := or_self_iff.mp (htotal b b)
    rw [greatest?_concat] at h
    simp only [List.mem_append, List.mem_singleton]
    split at h
    · rename_i hnone
      obtain rfl := greatest?_eq_none_iff.mp hnone
      obtain rfl := Option.some.inj h
      refine ⟨.inr rfl, fun d hd => ?_⟩
      rcases hd with hd | rfl
      · cases hd
      · exact hrefl d
    · rename_i b hb
      obtain ⟨hmem, hmax⟩ := ih hb
      split at h
      · rename_i hle
        obtain rfl := Option.some.inj h
        refine ⟨.inr rfl, fun d hd => ?_⟩
        rcases hd with hd | rfl
        · exact htrans d b _ (hmax d hd) hle
        · exact hrefl d
      · rename_i hnot
        obtain rfl := Option.some.inj h
        refine ⟨.inl hmem, fun d hd => ?_⟩
        rcases hd with hd | rfl
        · exact hmax d hd
        · exact (htotal d b).resolve_right hnot

end Greatest

/-! ## Endings in order -/

/-- The endings stand in the order of the times that the rows of the actions record, and none is
later than now. -/
structure InOrder (es : List Ending) (now : Instant) : Prop where
  sorted : es.Pairwise fun e e' => e.action.audit.lastModifiedAt ≤ e'.action.audit.lastModifiedAt
  past : ∀ e ∈ es, e.action.audit.lastModifiedAt ≤ now

/-- The action that ended last is outranked by one with a greater id: of those that ended in the same
millisecond this is the one with the greatest id. -/
structure Outranks (es : List Ending) (a last : Action) : Prop where
  getLast? : es.getLast?.map Ending.action = some last
  mem : a ∈ es.map Ending.action
  time : a.audit.lastModifiedAt = last.audit.lastModifiedAt
  lt : last.id < a.id
  max : ∀ b ∈ es.map Ending.action, b.audit.lastModifiedAt = last.audit.lastModifiedAt → b.id ≤ a.id

section Order

variable {es es' : List Ending} {now now' : Instant}

theorem InOrder.nil (now : Instant) : InOrder [] now := ⟨.nil, by simp⟩

/-- Endings of a later moment are appended. -/
theorem InOrder.append (h : InOrder es now) (hle : now ≤ now')
    (hnow : ∀ e ∈ es', e.action.audit.lastModifiedAt = now') : InOrder (es ++ es') now' := by
  refine ⟨List.pairwise_append.mpr ⟨h.sorted, ?_, fun e he e' he' => ?_⟩, fun e he => ?_⟩
  · refine List.pairwise_of_forall_mem_list fun e he e' he' => ?_
    exact Int.le_of_eq ((hnow e he).trans (hnow e' he').symm)
  · rw [hnow e' he']
    exact Int.le_trans (h.past e he) hle
  · rcases List.mem_append.mp he with he | he
    · exact Int.le_trans (h.past e he) hle
    · exact Int.le_of_eq (hnow e he)

/-- The last of the endings is a latest one. -/
theorem InOrder.le_last (h : InOrder es now) {last : Ending} (hlast : es.getLast? = some last)
    {e : Ending} (he : e ∈ es) :
    e.action.audit.lastModifiedAt ≤ last.action.audit.lastModifiedAt := by
  obtain ⟨before, rfl⟩ := List.getLast?_eq_some_iff.mp hlast
  rcases List.mem_append.mp he with he | he
  · exact (List.pairwise_append.mp h.sorted).2.2 e he last (List.mem_singleton_self last)
  · obtain rfl := List.mem_singleton.mp he
    exact Int.le_refl _

end Order

namespace Store

variable {s : Store} {x c : String} {ctx : Context} {now time : Instant} {change : TargetChange}
  {h : Chronicle} {success : Option Instant} {a : Action} {es : List Ending}

/-! ## What a request adds to a chronicle -/

/-- An action that a change ends was changed now. -/
theorem lastModifiedAt_of_mem_endedIn (hs : s.Consistent)
    (ha : a ∈ s.endedIn (s.commit ctx now change).2 x c) : a.audit.lastModifiedAt = now := by
  have hsame {s' : Store} (hs' : SameAt x c s s') : a ∉ s.endedIn s' x c := by
    rw [endedIn_of_same hs hs']
    exact List.not_mem_nil
  by_cases hkey : (ctx.tenantId, change.controllerId) = (x, c)
  · obtain ⟨rfl, rfl⟩ := Prod.mk.inj hkey
    rcases commit_cases hs ctx now change with ⟨k, -, hcommit, -⟩ | ⟨e, -, hcommit⟩
    · rw [hcommit] at ha
      obtain ⟨b, hb, rfl, hended⟩ := (mem_endedIn_written hs).mp ha
      -- the action was active, so some update has named it
      have hchanged : b = change.writeAction ctx now b ∨
          (change.writeAction ctx now b).audit.lastModifiedAt = now := by
        refine TargetChange.writeAction_induction
          (P := fun d => b = d ∨ d.audit.lastModifiedAt = now) (.inl rfl) fun u _ d hd => ?_
        unfold ActionUpdate.writeTo
        split
        · exact .inr rfl
        · exact hd
      refine hchanged.resolve_left fun hsame => ?_
      rw [← hsame, (mem_activeOf.mp hb).2] at hended
      cases hended
    · rw [hcommit] at ha
      exact absurd ha (hsame (.refl s))
  · exact absurd ha (hsame (.commit hs hkey))

theorem lastModifiedAt_of_mem_appliedBy (hs : s.Consistent) {cs : List TargetChange} {p : Applied}
    (hp : p ∈ s.appliedBy ctx now cs) (ha : a ∈ p.before.endedIn p.after x c) :
    a.audit.lastModifiedAt = now := by
  induction cs generalizing s with
  | nil => cases hp
  | cons change cs ih =>
    rcases List.mem_cons.mp hp with rfl | hp
    · exact lastModifiedAt_of_mem_endedIn hs ha
    · exact ih (hs.commit ctx now change) hp

/-- A request that comes no earlier than those before leaves the endings in order. -/
theorem inOrder_after (hs : s.Consistent) (hh : InOrder (h x c) time) {o : Op}
    (hle : time ≤ o.now) : InOrder (h.after success s o x c) o.now := by
  unfold Chronicle.after
  split
  · exact .nil o.now
  · refine hh.append hle fun e he => ?_
    obtain ⟨p, hp, he⟩ := List.mem_flatMap.mp he
    obtain ⟨a, ha, rfl⟩ := List.mem_map.mp he
    unfold appliedIn at hp
    split at hp
    · split at hp
      · cases hp
      · exact lastModifiedAt_of_mem_appliedBy hs hp ha
    · cases hp

/-- So do several requests of a clock that never goes backwards. -/
theorem inOrder_afterAll (hs : s.Consistent) (hh : InOrder (h x c) time) {ops : List Op}
    {time' : Instant} (hclock : (time :: (ops.map Op.now ++ [time'])).IsChain (· ≤ ·)) :
    InOrder (h.afterAll success s ops x c) time' := by
  induction ops generalizing s h time with
  | nil =>
    have hle : time ≤ time' := List.isChain_pair.mp hclock
    exact ⟨hh.sorted, fun e he => Int.le_trans (hh.past e he) hle⟩
  | cons o ops ih =>
    rw [List.map_cons, List.cons_append, List.isChain_cons_cons] at hclock
    exact ih (hs.after o) (inOrder_after hs hh hclock.1) hclock.2

/-! ## The store and the chronicle -/

theorem endedNoLater_iff {a b : Action} : endedNoLater a b = true ↔
    a.audit.lastModifiedAt < b.audit.lastModifiedAt ∨
      a.audit.lastModifiedAt = b.audit.lastModifiedAt ∧ a.id ≤ b.id := by
  simp [endedNoLater]

theorem lastEnded_eq_none_iff :
    s.lastEnded x c = none ↔ ∀ a ∈ s.actionsOf x c, a.active = true := by
  rw [lastEnded, greatest?_eq_none_iff, List.filter_eq_nil_iff]
  simp

/-- What the store names as the action that ended last has ended, and none has ended later. -/
theorem lastEnded_spec (h : s.lastEnded x c = some a) :
    (a ∈ s.actionsOf x c ∧ a.active = false) ∧
      ∀ b, b ∈ s.actionsOf x c ∧ b.active = false → endedNoLater b a = true := by
  unfold lastEnded at h
  have htotal (a b : Action) : endedNoLater a b = true ∨ endedNoLater b a = true := by
    rw [endedNoLater_iff, endedNoLater_iff]
    grind
  have htrans (a b d : Action) (hab : endedNoLater a b = true) (hbd : endedNoLater b d = true) :
      endedNoLater a d = true := by
    rw [endedNoLater_iff] at hab hbd ⊢
    grind
  simpa using greatest?_spec htotal htrans h

variable (hs : s.Consistent)
  (hended : ∀ a, a ∈ es.map Ending.action ↔ a ∈ s.actionsOf x c ∧ a.active = false)
include hs hended

/-- The store names the last of the endings, or one that outranks it. -/
theorem lastEnded_eq_or_outranks (hes : InOrder es now) :
    s.lastEnded x c = es.getLast?.map Ending.action ∨
      ∃ a last, s.lastEnded x c = some a ∧ Outranks es a last := by
  cases hlast : es.getLast? with
  | none =>
    obtain rfl := List.getLast?_eq_none_iff.mp hlast
    left
    rw [Option.map_none, lastEnded_eq_none_iff]
    intro a ha
    by_contra hactive
    exact List.not_mem_nil ((hended a).mpr ⟨ha, Bool.eq_false_iff.mpr hactive⟩)
  | some e =>
    have hmem : e.action ∈ es.map Ending.action :=
      List.mem_map_of_mem (List.mem_of_getLast? hlast)
    cases ha : s.lastEnded x c with
    | none =>
      obtain ⟨hstored, hinactive⟩ := (hended e.action).mp hmem
      rw [lastEnded_eq_none_iff.mp ha e.action hstored] at hinactive
      cases hinactive
    | some a =>
      obtain ⟨hstored, hmax⟩ := lastEnded_spec ha
      obtain ⟨e', he', rfl⟩ := List.mem_map.mp ((hended a).mpr hstored)
      have hle := hes.le_last hlast he'
      have htop := endedNoLater_iff.mp (hmax e.action ((hended e.action).mp hmem))
      by_cases hid : e'.action.id = e.action.id
      · left
        rw [Option.map_some, hs.actions.eq_of_id_eq (mem_actionsOf.mp hstored.1).1
          (mem_actionsOf.mp ((hended e.action).mp hmem).1).1 hid]
      · right
        refine ⟨_, e.action, rfl, by rw [hlast, Option.map_some], List.mem_map_of_mem he', by grind,
          by grind, fun b hb htime => ?_⟩
        have hb := endedNoLater_iff.mp (hmax b ((hended b).mp hb))
        grind

/-- An action that outranks the last one is the one that the store names. -/
theorem lastEnded_of_outranks (hes : InOrder es now) {last : Action} (h : Outranks es a last) :
    s.lastEnded x c = some a := by
  obtain ⟨e, hlast, rfl⟩ := Option.map_eq_some_iff.mp h.getLast?
  cases hb : s.lastEnded x c with
  | none =>
    obtain ⟨hstored, hinactive⟩ := (hended a).mp h.mem
    rw [lastEnded_eq_none_iff.mp hb a hstored] at hinactive
    cases hinactive
  | some b =>
    obtain ⟨hstored, hmax⟩ := lastEnded_spec hb
    have hmem := (hended b).mpr hstored
    obtain ⟨e', he', rfl⟩ := List.mem_map.mp hmem
    have hle := hes.le_last hlast he'
    have htop := endedNoLater_iff.mp (hmax a ((hended a).mp h.mem))
    have htime := h.time
    have hid := h.max _ hmem (by grind)
    rw [hs.actions.eq_of_id_eq (mem_actionsOf.mp hstored.1).1
      (mem_actionsOf.mp ((hended a).mp h.mem).1).1 (by grind)]

end Store

end FleetUpdate
