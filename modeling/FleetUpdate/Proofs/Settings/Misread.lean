import FleetUpdate.Proofs.Settings.Kinds

/-!
# Settings that are misread

What the environment says of a setting is told without a reader: a variable says what its text stands
for without the blanks around it, or the default if there is nothing but blanks (`Environment.Says`);
a text that stands for nothing of its kind is no setting at all (`Environment.Misfits`).  Numbers and
modes are read in just this way (`readOr_readsAs`), and a text that misfits is refused with an error
that names its variable.

The weight flag is not.  Its text is compared as it stands with the words for on, and everything else
is taken for off without an error, be it a text that is no flag or a word for on among blanks.
`misreads_only_weight` says that settings are misread in this case alone, unless another variable is
refused before.
-/

namespace FleetUpdate

open Text

namespace Environment

variable {α : Type} (env : Environment) (key : String)

/-- The variable is set to a text that is not blank; without the blanks around it, it is `core`. -/
def Holds (core : List Char) : Prop :=
  ∃ s, env.text? key = some s ∧ Trims s.toList core ∧ core ≠ []

/-- What the variable says: the value that its text stands for, or the default if it is unset, blank
or no text. -/
def Says (dflt : α) (StandsFor : List Char → α → Prop) (a : α) : Prop :=
  (∃ core, env.Holds key core ∧ StandsFor core a) ∨ (∀ core, ¬ env.Holds key core) ∧ a = dflt

/-- The variable is set to a text that stands for nothing. -/
def Misfits (StandsFor : List Char → α → Prop) : Prop :=
  ∃ core, env.Holds key core ∧ ∀ a, ¬ StandsFor core a

variable {env key} {dflt : α} {StandsFor : List Char → α → Prop}

theorem Holds.unique {core core' : List Char} (h : env.Holds key core) (h' : env.Holds key core') :
    core = core' := by
  obtain ⟨s, hs, htrims, -⟩ := h
  obtain ⟨s', hs', htrims', -⟩ := h'
  obtain rfl := Option.some.inj (hs.symm.trans hs')
  exact htrims.trimChars_eq.symm.trans htrims'.trimChars_eq

theorem Says.not_misfits {a : α} (h : env.Says key dflt StandsFor a) :
    ¬ env.Misfits key StandsFor := by
  rintro ⟨core, hcore, hno⟩
  rcases h with ⟨core', hcore', ha⟩ | ⟨hunset, -⟩
  · exact hno a (hcore'.unique hcore ▸ ha)
  · exact hunset core hcore

end Environment

namespace Settings

/-! ## Reading one variable -/

/-- A variable is read as what it says, or refused by its name because its text stands for nothing. -/
inductive ReadsAs {α : Type} (env : Environment) (key : String) (dflt : α)
    (StandsFor : List Char → α → Prop) : Except ConfigError α → Prop where
  | ok {a : α} (h : env.Says key dflt StandsFor a) : ReadsAs env key dflt StandsFor (.ok a)
  | refused {value : String} (h : env.Misfits key StandsFor) :
      ReadsAs env key dflt StandsFor (.error (.invalid key value))

variable {env : Environment}

theorem readOr_readsAs {α : Type} {StandsFor : List Char → α → Prop} {parse : String → Option α}
    (hparse : ∀ core a, trimChars core = core →
      (parse (String.ofList core) = some a ↔ StandsFor core a)) (key : String) (dflt : α) :
    ReadsAs env key dflt StandsFor (readOr env key dflt parse) := by
  unfold readOr
  cases hs : env.text? key with
  | none => exact .ok (.inr ⟨fun core ⟨s, hs', _⟩ => by simp [hs] at hs', rfl⟩)
  | some s =>
    dsimp only
    by_cases hblank : allBlank s = true
    · rw [if_pos hblank]
      refine .ok (.inr ⟨?_, rfl⟩)
      rintro core ⟨s', hs', htrims, hne⟩
      obtain rfl := Option.some.inj (hs.symm.trans hs')
      exact hne (htrims.trimChars_eq.symm.trans (allBlank_iff.mp hblank))
    · rw [if_neg hblank]
      have hholds : env.Holds key (trimChars s.toList) :=
        ⟨s, hs, trims_trimChars _, fun h => hblank (allBlank_iff.mpr h)⟩
      have hreads := fun a => hparse _ a (trimChars_trimChars s.toList)
      rw [show trim s = String.ofList (trimChars s.toList) from rfl]
      cases hp : parse (String.ofList (trimChars s.toList)) with
      | none => exact .refused ⟨_, hholds, fun a ha => by simp [(hreads a).mpr ha] at hp⟩
      | some a => exact .ok (.inl ⟨_, hholds, (hreads a).mp hp⟩)

/-- A batch size of zero is refused after it was read. -/
theorem readMaxEntries_readsAs :
    ReadsAs env maxEntriesKey 999 IsBatchSize (readMaxEntries env) := by
  have hread : ReadsAs env maxEntriesKey 999 (IsUnsigned 64)
      (readOr env maxEntriesKey Policy.standard.maxEntries (unsignedOf 64)) :=
    readOr_readsAs (fun _ _ _ => unsignedOf_eq_some_iff) _ _
  unfold readMaxEntries
  generalize readOr env maxEntriesKey Policy.standard.maxEntries (unsignedOf 64) = r at hread
  cases hread with
  | refused h =>
    obtain ⟨core, hcore, hno⟩ := h
    exact .refused ⟨core, hcore, fun n hn => hno n hn.1⟩
  | @ok n h =>
    show ReadsAs _ _ _ _ (if n = 0 then _ else _)
    rcases h with ⟨core, hcore, hn⟩ | ⟨hunset, rfl⟩
    · split
      · rename_i hzero
        exact .refused ⟨core, hcore, fun m hm => hm.2 ((hm.1.unique hn).trans hzero)⟩
      · rename_i hne
        exact .ok (.inl ⟨core, hcore, hn, hne⟩)
    · exact .ok (.inr ⟨hunset, rfl⟩)

/-! ## Reading them all -/

/-- The variable is set to a text that is none of its kind. -/
inductive Offends (env : Environment) : String → Prop where
  | maxConnections (h : env.Misfits maxConnectionsKey (IsUnsigned 32)) :
      Offends env maxConnectionsKey
  | maxEntries (h : env.Misfits maxEntriesKey IsBatchSize) : Offends env maxEntriesKey
  | maxActions (h : env.Misfits maxActionsKey (IsUnsigned 64)) : Offends env maxActionsKey
  | supersede (h : env.Misfits supersedeKey IsMode) : Offends env supersedeKey
  | weightRequired (h : env.Misfits weightRequiredKey IsFlag) : Offends env weightRequiredKey

/-- The settings are what the variables say, with the weight flag as told by `Weight`. -/
structure Carries (env : Environment) (Weight : Bool → Prop) (s : Settings) : Prop where
  databaseUrl : ∀ url, s.databaseUrl = some url ↔ env.text? databaseUrlKey = some url ∧ url ≠ ""
  maxConnections : env.Says maxConnectionsKey 8 (IsUnsigned 32) s.maxConnections
  maxEntries : env.Says maxEntriesKey 999 IsBatchSize s.policy.maxEntries
  maxActions : env.Says maxActionsKey 400 (IsUnsigned 64) s.policy.maxActions
  supersede : env.Says supersedeKey .immediate IsMode s.policy.supersede
  weightRequired : Weight s.policy.weightRequired

/-- Settings are read just if no variable is refused, as what the variables say, and an error names a
variable that is refused. -/
structure Reading (env : Environment) (Weight : Bool → Prop) (Refused : String → Prop)
    (result : Except ConfigError Settings) : Prop where
  ok_iff : (∃ s, result = .ok s) ↔ ∀ key, ¬ Refused key
  carries : ∀ s, result = .ok s → Carries env Weight s
  names : ∀ e, result = .error e → ∃ key value, Refused key ∧ e = .invalid key value

/-- Every variable counts as what it says, and each that says nothing of its kind is refused. -/
def NothingMisread (env : Environment) (result : Except ConfigError Settings) : Prop :=
  Reading env (env.Says weightRequiredKey false IsFlag) (Offends env) result

/-- The weight flag is on just if the text of its variable, as it stands, is a word for on. -/
def WeightTaken (env : Environment) (w : Bool) : Prop :=
  w = true ↔ ∃ s, env.text? weightRequiredKey = some s ∧ IsFlag s.toList true

/-- The weight variable is set to a text that is not blank, and that is neither a word for off, with
blanks around it or without, nor a word for on without. -/
def WeightCoerced (env : Environment) : Prop :=
  ∃ s core, env.text? weightRequiredKey = some s ∧ Trims s.toList core ∧ core ≠ [] ∧
    ¬ IsFlag core false ∧ ¬ IsFlag s.toList true

theorem Reading.of_refused {Weight : Bool → Prop} {Refused : String → Prop} {key value : String}
    (h : Refused key) : Reading env Weight Refused (.error (.invalid key value)) where
  ok_iff := ⟨nofun, fun hnone => absurd h (hnone key)⟩
  carries := nofun
  names := by
    rintro e ⟨⟩
    exact ⟨key, value, h, rfl⟩

/-- Reading goes on with what a variable says, or ends with an error that names it. -/
theorem Reading.bind {α : Type} {key : String} {dflt : α} {StandsFor : List Char → α → Prop}
    {Weight : Bool → Prop} {Refused : String → Prop} {r : Except ConfigError α}
    {f : α → Except ConfigError Settings} (hread : ReadsAs env key dflt StandsFor r)
    (hrefused : env.Misfits key StandsFor → Refused key)
    (hnext : ∀ a, env.Says key dflt StandsFor a → Reading env Weight Refused (f a)) :
    Reading env Weight Refused (r >>= f) := by
  cases hread with
  | ok h => exact hnext _ h
  | refused h => exact .of_refused (hrefused h)

/-- Four variables are read as they should be, and the weight flag as it is taken. -/
theorem ofEnvironment_reading (env : Environment) :
    Reading env (WeightTaken env) (fun key => Offends env key ∧ key ≠ weightRequiredKey)
      (ofEnvironment env) := by
  unfold ofEnvironment
  refine .bind (readOr_readsAs (fun _ _ _ => unsignedOf_eq_some_iff) _ _)
    (fun h => ⟨.maxConnections h, by decide⟩) fun connections hconnections => ?_
  refine .bind readMaxEntries_readsAs
    (fun h => ⟨.maxEntries h, by decide⟩) fun entries hentries => ?_
  refine .bind (readOr_readsAs (fun _ _ _ => unsignedOf_eq_some_iff) _ _)
    (fun h => ⟨.maxActions h, by decide⟩) fun actions hactions => ?_
  refine .bind (readOr_readsAs (fun _ _ h => ofText?_eq_some_iff h) _ _)
    (fun h => ⟨.supersede h, by decide⟩) fun mode hmode => ?_
  refine ⟨⟨fun _ => ?_, fun _ => ⟨_, rfl⟩⟩, ?_, nofun⟩
  · rintro key ⟨hoffends, hne⟩
    cases hoffends with
    | maxConnections h => exact hconnections.not_misfits h
    | maxEntries h => exact hentries.not_misfits h
    | maxActions h => exact hactions.not_misfits h
    | supersede h => exact hmode.not_misfits h
    | weightRequired h => exact hne rfl
  · rintro s ⟨⟩
    exact ⟨fun url => by simp [readDatabaseUrl, Option.filter_eq_some_iff], hconnections, hentries,
      hactions, hmode, readWeightRequired_eq_true_iff⟩

/-! ## The weight flag -/

theorem Offends.ne_or_misfits {key : String} (h : Offends env key) :
    key ≠ weightRequiredKey ∨ env.Misfits weightRequiredKey IsFlag := by
  cases h with
  | weightRequired h => exact .inr h
  | _ => exact .inl (by decide)

theorem WeightTaken.eq_false {w : Bool} (h : WeightTaken env w)
    (hno : ∀ s, env.text? weightRequiredKey = some s → ¬ IsFlag s.toList true) : w = false := by
  rw [← Bool.not_eq_true]
  intro hw
  obtain ⟨s, hs, hflag⟩ := h.mp hw
  exact hno s hs hflag

/-- A flag that is not coerced is taken for what its variable says. -/
theorem WeightTaken.says {w : Bool} (h : WeightTaken env w) (hclear : ¬ WeightCoerced env) :
    env.Says weightRequiredKey false IsFlag w := by
  by_cases hholds : ∃ core, env.Holds weightRequiredKey core
  · obtain ⟨core, s, hs, htrims, hne⟩ := hholds
    refine .inl ⟨core, ⟨s, hs, htrims, hne⟩, ?_⟩
    by_cases hon : IsFlag s.toList true
    · have hcore : core = s.toList := htrims.trimChars_eq.symm.trans hon.trimChars_eq
      rw [h.mpr ⟨s, hs, hon⟩, hcore]
      exact hon
    · rw [h.eq_false fun s' hs' => Option.some.inj (hs.symm.trans hs') ▸ hon]
      by_contra hoff
      exact hclear ⟨s, core, hs, htrims, hne, hoff, hon⟩
  · rw [not_exists] at hholds
    refine .inr ⟨hholds, h.eq_false fun s hs hflag => hholds s.toList ⟨s, hs, ?_, ?_⟩⟩
    · exact trimChars_eq_iff.mp hflag.trimChars_eq
    · exact fun hnil => not_isFlag_nil true (hnil ▸ hflag)

/-- A coerced flag is taken for off, which its variable does not say. -/
theorem WeightTaken.not_says {w : Bool} (h : WeightTaken env w) (hcoerced : WeightCoerced env) :
    ¬ env.Says weightRequiredKey false IsFlag w := by
  obtain ⟨s, core, hs, htrims, hne, hoff, hon⟩ := hcoerced
  have hholds : env.Holds weightRequiredKey core := ⟨s, hs, htrims, hne⟩
  rw [h.eq_false fun s' hs' => Option.some.inj (hs.symm.trans hs') ▸ hon]
  rintro (⟨core', hcore', hflag⟩ | ⟨hunset, -⟩)
  · exact hoff (hcore'.unique hholds ▸ hflag)
  · exact hunset core hholds

/-- For every environment: settings are read just if none of the variables but the weight flag is set
to a text that is none of its kind; they are what the variables say, the weight flag being on just if
its text as it stands is a word for on; and otherwise the error names a variable that is at fault.  So
nothing is misread, just if the weight flag is not coerced or another variable is refused. -/
theorem misreads_only_weight (env : Environment) :
    Reading env (WeightTaken env) (fun key => Offends env key ∧ key ≠ weightRequiredKey)
      (ofEnvironment env) ∧
    (NothingMisread env (ofEnvironment env) ↔
      ¬ WeightCoerced env ∨ ∃ key, Offends env key ∧ key ≠ weightRequiredKey) := by
  have hreading := ofEnvironment_reading env
  refine ⟨hreading, ?_⟩
  by_cases hother : ∃ key, Offends env key ∧ key ≠ weightRequiredKey
  · obtain ⟨key, hkey⟩ := hother
    have hfails : ¬ ∃ s, ofEnvironment env = .ok s := fun hok => hreading.ok_iff.mp hok key hkey
    refine iff_of_true ⟨⟨fun hok => absurd hok hfails, fun hnone => absurd hkey.1 (hnone key)⟩,
      fun s hs => absurd ⟨s, hs⟩ hfails, fun e he => ?_⟩ (.inr ⟨key, hkey⟩)
    obtain ⟨key, value, hkey, he⟩ := hreading.names e he
    exact ⟨key, value, hkey.1, he⟩
  · obtain ⟨s, hs⟩ := hreading.ok_iff.mpr fun key hkey => hother ⟨key, hkey⟩
    have htaken := (hreading.carries s hs).weightRequired
    rw [or_iff_left hother]
    constructor
    · exact fun h hcoerced => htaken.not_says hcoerced (h.carries s hs).weightRequired
    · intro hclear
      have hsays := htaken.says hclear
      refine ⟨⟨fun _ key hkey => ?_, fun _ => ⟨s, hs⟩⟩, fun t ht => ?_, fun e he => ?_⟩
      · rcases hkey.ne_or_misfits with hne | hmisfits
        · exact hother ⟨key, hkey, hne⟩
        · exact hsays.not_misfits hmisfits
      · obtain rfl := Except.ok.inj (hs.symm.trans ht)
        exact { hreading.carries s hs with weightRequired := hsays }
      · cases hs.symm.trans he

/-- An environment that sets nothing but the weight flag. -/
def weightOnly (text : String) : Environment := [(weightRequiredKey, .text text)]

/-- A text that is no flag is read as off without an error, and so is a word for on after a blank. -/
theorem unclear_weight_misread :
    ofEnvironment (weightOnly "yes") = .ok standard ∧
    ¬ NothingMisread (weightOnly "yes") (ofEnvironment (weightOnly "yes")) ∧
    ofEnvironment (weightOnly " true") = .ok standard ∧
    ¬ NothingMisread (weightOnly " true") (ofEnvironment (weightOnly " true")) := by
  have hyes : ofEnvironment (weightOnly "yes") = .ok standard := by decide +kernel
  have htrue : ofEnvironment (weightOnly " true") = .ok standard := by decide +kernel
  refine ⟨hyes, fun h => ?_, htrue, fun h => ?_⟩
  · refine h.ok_iff.mp ⟨_, hyes⟩ _ (.weightRequired ⟨"yes".toList, ?_, by decide +kernel⟩)
    exact ⟨"yes", rfl, trimChars_eq_iff.mp (by decide +kernel), by decide⟩
  · have hsays := (h.carries _ htrue).weightRequired
    have hholds : (weightOnly " true").Holds weightRequiredKey "true".toList :=
      ⟨" true", rfl, trimChars_eq_iff.mp (by decide +kernel), by decide⟩
    rcases hsays with ⟨core, hcore, hflag⟩ | ⟨hunset, -⟩
    · rw [hcore.unique hholds] at hflag
      exact absurd hflag (by decide +kernel)
    · exact hunset _ hholds

end Settings

end FleetUpdate
