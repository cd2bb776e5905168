import FleetUpdate.Program

/-!
# Programs among others

Between two requests of a program others may ask the store as well.  `Program.Meets R G Q s` says
what a program that was at the store `s` last can be sure of: as long as others only lead to stores
that `R` allows, every request that the program makes is as `G` promises at the store that answers
it, and what the program returns is as `Q` says.  With equality for `R` this is a program that runs
alone.
-/

namespace FleetUpdate

/-- A lookup. -/
def Request.IsLookup : Request → Prop
  | createTarget _ | updateTarget _ _ | markContacted _ _ | deleteTarget _ | createSet _
  | setModules _ _ | deleteSet _ | applyChanges _ => False
  | _ => True

namespace Program

variable {α β : Type} {R : Store → Store → Prop} {G : Context → Request → Store → Prop}

/-- While others only do what `R` allows, the program asks what `G` promises and returns what `Q`
says. -/
def Meets (R : Store → Store → Prop) (G : Context → Request → Store → Prop) :
    Program α → (α → Store → Prop) → Store → Prop
  | done a, Q, s => Q a s
  | fail _, _, _ => True
  | ask ctx r next, Q, s => ∀ s', R s s' → G ctx r s' ∧
      ∀ now, Meets R G (next (s'.perform ctx now r).1) Q (s'.perform ctx now r).2
  | clock next, Q, s => ∀ t, Meets R G (next t) Q s
  | note _ next, Q, s => Meets R G next Q s

variable {p : Program α} {Q : α → Store → Prop} {s : Store} {ctx : Context}

/-- A composed program is sure of what its parts are sure of in turn. -/
@[simp] theorem meets_bind {f : α → Program β} {Q : β → Store → Prop} :
    (p.bind f).Meets R G Q s ↔ p.Meets R G (fun a s => (f a).Meets R G Q s) s := by
  induction p generalizing s with
  | done a => rfl
  | fail e => rfl
  | ask ctx r next ih =>
    refine forall_congr' fun s' => imp_congr_right fun _ => and_congr_right fun _ => ?_
    exact forall_congr' fun now => ih _
  | clock next ih => exact forall_congr' fun t => ih t
  | note n next ih => exact ih

theorem Meets.mono {Q' : α → Store → Prop} (h : p.Meets R G Q s) (hQ : ∀ a s, Q a s → Q' a s) :
    p.Meets R G Q' s := by
  induction p generalizing s with
  | done a => exact hQ a s h
  | fail e => trivial
  | ask ctx r next ih =>
    intro s' hs'
    obtain ⟨hG, hnext⟩ := h s' hs'
    exact ⟨hG, fun now => ih _ (hnext now)⟩
  | clock next ih => exact fun t => ih t (h t)
  | note n next ih => exact ih h

/-- What is promised may be weakened, wherever others may lead. -/
theorem Meets.promise_mono {G' : Context → Request → Store → Prop} (h : p.Meets R G Q s)
    (hG : ∀ ctx r s', (∃ s, R s s') → G ctx r s' → G' ctx r s') : p.Meets R G' Q s := by
  induction p generalizing s with
  | done a => exact h
  | fail e => trivial
  | ask ctx r next ih =>
    intro s' hs'
    obtain ⟨hasked, hnext⟩ := h s' hs'
    exact ⟨hG ctx r s' ⟨s, hs'⟩ hasked, fun now => ih _ (hnext now)⟩
  | clock next ih => exact fun t => ih t (h t)
  | note n next ih => exact ih h

/-! ## The parts of programs -/

@[simp] theorem meets_done {a : α} : (done a).Meets R G Q s ↔ Q a s := Iff.rfl

@[simp] theorem meets_fail {e : DeploymentError} : (fail e : Program α).Meets R G Q s ↔ True :=
  Iff.rfl

@[simp] theorem meets_note {n : Note} : (note n p).Meets R G Q s ↔ p.Meets R G Q s := Iff.rfl

@[simp] theorem meets_clock {next : Instant → Program α} :
    (clock next).Meets R G Q s ↔ ∀ t, (next t).Meets R G Q s := Iff.rfl

@[simp] theorem meets_recordedNow {Q : Instant → Store → Prop} :
    recordedNow.Meets R G Q s ↔ ∀ t, Q (epochMillis t) s := Iff.rfl

@[simp] theorem meets_write {n : Note} {Q : Unit → Store → Prop} :
    (write n).Meets R G Q s ↔ Q () s := Iff.rfl

@[simp] theorem meets_log {n : Notice} {Q : Unit → Store → Prop} :
    (log n).Meets R G Q s ↔ Q () s := Iff.rfl

@[simp] theorem meets_count {c : Counter} {n : Nat} {Q : Unit → Store → Prop} :
    (count c n).Meets R G Q s ↔ Q () s := Iff.rfl

@[simp] theorem meets_publish {es : List Event} {Q : Unit → Store → Prop} :
    (publish es).Meets R G Q s ↔ Q () s := by
  induction es with
  | nil => rfl
  | cons e es ih => exact ih

@[simp] theorem meets_ofExcept {x : Except DeploymentError α} :
    (ofExcept x).Meets R G Q s ↔ ∀ a, x = .ok a → Q a s := by
  cases x with
  | error e => exact ⟨fun _ a h => (by cases h), fun _ => trivial⟩
  | ok a => exact ⟨fun h b hb => Except.ok.inj hb ▸ h, fun h => h a rfl⟩

@[simp] theorem meets_require {e : Entity} {id : String} {x : Option α} :
    (require e id x).Meets R G Q s ↔ ∀ a, x = some a → Q a s := by
  cases x with
  | none => exact ⟨fun _ a h => (by cases h), fun _ => trivial⟩
  | some a => exact ⟨fun h b hb => Option.some.inj hb ▸ h, fun h => h a rfl⟩

/-- A request that fails ends the program. -/
theorem meets_request {r : Request} {Q : r.Answer → Store → Prop}
    (h : ∀ s', R s s' → G ctx r s' ∧
      ∀ now a, (s'.perform ctx now r).1 = .ok a → Q a (s'.perform ctx now r).2) :
    (request ctx r).Meets R G Q s := by
  intro s' hs'
  obtain ⟨hG, hQ⟩ := h s' hs'
  refine ⟨hG, fun now => ?_⟩
  cases hr : (s'.perform ctx now r).1 with
  | error e => trivial
  | ok a => exact hQ now a hr

/-- A lookup finds what is there and changes nothing. -/
theorem meets_lookup {r : Request} {find : Store → r.Answer} {Q : r.Answer → Store → Prop}
    (hr : ∀ (s : Store) now, s.answer ctx now r = (.ok (find s), s))
    (h : ∀ s', R s s' → G ctx r s' ∧ Q (find s') s') : (request ctx r).Meets R G Q s := by
  refine meets_request fun s' hs' => ⟨(h s' hs').1, fun now a ha => ?_⟩
  unfold Store.perform at ha ⊢
  split at ha
  · cases ha
  · rename_i hx
    rw [hr] at ha
    obtain rfl := Except.ok.inj ha
    rw [if_neg hx, hr]
    exact (h s' hs').2

end Program

end FleetUpdate
