import FleetUpdate.Proofs.Text.Reading
import FleetUpdate.Settings.Basic
import Mathlib.Data.List.Forall2

/-!
# The kinds of settings

A setting is a number of so many bits, a mode, or a flag.  Which texts stand for which value is told
here from the text alone, by `IsUnsigned`, `IsMode` and `IsFlag`; the letter case of words does not
count (`Spells`).

The readers of numbers and modes accept just these texts (`unsignedOf_eq_some_iff`,
`ofText?_eq_some_iff`).  A flag has no such reader: all that is looked for is a word that stands for
on (`readWeightRequired_eq_true_iff`).
-/

namespace FleetUpdate.Settings

open Text

variable {cs : List Char}

/-! ## Words in any letter case -/

/-- The text is a word of small letters, some of which may be written as capitals. -/
def Spells (word : String) (cs : List Char) : Prop :=
  List.Forall₂ (fun w c => c = w ∨ c = w.toUpper) word.toList cs

/-- Capitals and small letters are 32 codes apart. -/
theorem toNat_toLower (c : Char) : c.toLower.toNat =
    if 65 ≤ c.toNat ∧ c.toNat ≤ 90 then c.toNat + 32 else c.toNat := by
  unfold Char.toLower Char.toNat
  simp only [ge_iff_le, UInt32.le_iff_toNat_le, Char.reduceVal, UInt32.reduceToNat]
  split
  · simp only [UInt32.toNat_add, UInt32.reduceSub, UInt32.reduceToNat]
    exact Nat.mod_eq_of_lt (by omega)
  · rfl

theorem toNat_toUpper (c : Char) : c.toUpper.toNat =
    if 97 ≤ c.toNat ∧ c.toNat ≤ 122 then c.toNat - 32 else c.toNat := by
  unfold Char.toUpper Char.toNat
  simp only [UInt32.le_iff_toNat_le, Char.reduceVal, UInt32.reduceToNat]
  split
  · -- going back is adding what is left of a word
    simp only [UInt32.toNat_add, UInt32.reduceSub, UInt32.reduceToNat]
    omega
  · rfl

theorem toLower_eq_iff {w c : Char} (hw : w.toLower = w) :
    c.toLower = w ↔ c = w ∨ c = w.toUpper := by
  simp only [← Char.toNat_inj, toNat_toLower, toNat_toUpper] at hw ⊢
  grind

theorem spells_iff {word : String} (hword : ∀ w ∈ word.toList, w.toLower = w) :
    Spells word cs ↔ cs.map Char.toLower = word.toList := by
  unfold Spells
  generalize word.toList = ws at hword
  induction ws generalizing cs with
  | nil => simp
  | cons w ws ih =>
    obtain ⟨hw, hws⟩ := List.forall_mem_cons.mp hword
    cases cs with
    | nil => simp
    | cons c cs =>
      rw [List.forall₂_cons, ih hws, ← toLower_eq_iff hw, List.map_cons, List.cons.injEq]

/-! ## Numbers -/

/-- The text stands for an unsigned number of so many bits: a numeral, after at most one plus
sign. -/
inductive IsUnsigned (bits : Nat) : List Char → Nat → Prop where
  | plain {cs : List Char} {n : Nat} (h : Numeral cs n) (lt : n < 2 ^ bits) : IsUnsigned bits cs n
  | plus {cs : List Char} {n : Nat} (h : Numeral cs n) (lt : n < 2 ^ bits) :
      IsUnsigned bits ('+' :: cs) n

/-- The text stands for the size of a batch: a number of 64 bits, but not zero. -/
def IsBatchSize (cs : List Char) (n : Nat) : Prop := IsUnsigned 64 cs n ∧ n ≠ 0

theorem unsignedOf_eq_some_iff {bits n : Nat} :
    unsignedOf bits (String.ofList cs) = some n ↔ IsUnsigned bits cs n := by
  have hpos : 0 < 2 ^ bits := Nat.two_pow_pos bits
  have hbound : n ≤ (1 <<< bits) - 1 ↔ n < 2 ^ bits := by
    rw [Nat.one_shiftLeft]
    omega
  unfold unsignedOf unsigned?
  rw [String.toList_ofList, Option.filter_eq_some_iff, natural?_eq_some_iff_numeral,
    decide_eq_true_eq, hbound]
  split
  · rename_i r
    constructor
    · exact fun h => .plus h.1 h.2
    · rintro (⟨h, -⟩ | ⟨h, hlt⟩)
      · exact absurd List.mem_cons_self (h.notMem rfl)
      · exact ⟨h, hlt⟩
  · rename_i hplus
    constructor
    · exact fun h => .plain h.1 h.2
    · rintro (⟨h, hlt⟩ | ⟨h, hlt⟩)
      · exact ⟨h, hlt⟩
      · exact absurd rfl (hplus _)

theorem IsUnsigned.unique {bits m n : Nat} (hm : IsUnsigned bits cs m)
    (hn : IsUnsigned bits cs n) : m = n :=
  Option.some.inj ((unsignedOf_eq_some_iff.mpr hm).symm.trans (unsignedOf_eq_some_iff.mpr hn))

/-! ## Modes -/

/-- The text stands for what becomes of superseded actions. -/
inductive IsMode (cs : List Char) : SupersedeMode → Prop where
  | immediate (h : Spells "immediate" cs) : IsMode cs .immediate
  | graceful (h : Spells "graceful" cs) : IsMode cs .graceful

theorem isMode_iff {m : SupersedeMode} : IsMode cs m ↔ cs.map Char.toLower = m.name.toList := by
  have hsmall : ∀ w ∈ m.name.toList, w.toLower = w := by
    cases m <;> simp [SupersedeMode.name]
  rw [← spells_iff hsmall]
  cases m with
  | immediate => exact ⟨fun | .immediate h => h, .immediate⟩
  | graceful => exact ⟨fun | .graceful h => h, .graceful⟩

theorem ofText?_eq_some_iff (h : trimChars cs = cs) {m : SupersedeMode} :
    SupersedeMode.ofText? (String.ofList cs) = some m ↔ IsMode cs m := by
  rw [isMode_iff, SupersedeMode.ofText?, String.toList_ofList, h]
  simp only [← String.toList_inj, String.toList_ofList]
  cases m with
  | immediate => simp
  | graceful =>
    have hne : SupersedeMode.graceful.name.toList ≠ SupersedeMode.immediate.name.toList := by decide
    split
    · rename_i himm
      simp [himm, hne.symm]
    · simp

/-! ## Flags -/

/-- The words for on and off. -/
def flagWords : Bool → List String
  | true => ["1", "true", "on"]
  | false => ["0", "false", "off"]

/-- The text stands for on or for off. -/
def IsFlag (cs : List Char) (b : Bool) : Prop := ∃ word ∈ flagWords b, Spells word cs

theorem isFlag_iff {b : Bool} :
    IsFlag cs b ↔ ∃ word ∈ flagWords b, cs.map Char.toLower = word.toList := by
  have hsmall : ∀ word ∈ flagWords b, ∀ w ∈ word.toList, w.toLower = w := by
    cases b <;> simp [flagWords]
  refine exists_congr fun word => and_congr_right fun hword => spells_iff (hsmall word hword)

instance (cs : List Char) (b : Bool) : Decidable (IsFlag cs b) :=
  decidable_of_iff _ isFlag_iff.symm

/-- No blank is part of a flag. -/
theorem IsFlag.trimChars_eq {b : Bool} (h : IsFlag cs b) : trimChars cs = cs := by
  obtain ⟨word, hword, hcs⟩ := isFlag_iff.mp h
  have hplain : ((flagWords b).all fun word => word.toList.all fun w =>
      w.toLower == w && !isBlank w && !isBlank w.toUpper) = true := by
    cases b <;> decide
  simp only [List.all_eq_true, Bool.and_eq_true, beq_iff_eq, Bool.not_eq_true'] at hplain
  refine trimChars_eq_self fun c hc => ?_
  have hmem : c.toLower ∈ word.toList := hcs ▸ List.mem_map_of_mem hc
  obtain ⟨⟨hsmall, hlower⟩, hupper⟩ := hplain word hword _ hmem
  rcases (toLower_eq_iff hsmall).mp rfl with hc | hc
  · rwa [← hc] at hlower
  · rwa [← hc] at hupper

theorem not_isFlag_nil (b : Bool) : ¬ IsFlag [] b := by
  cases b <;> decide

/-- The flag is on just if its text, with nothing around it, is a word for on. -/
theorem readWeightRequired_eq_true_iff {env : Environment} : readWeightRequired env = true ↔
    ∃ s, env.text? weightRequiredKey = some s ∧ IsFlag s.toList true := by
  unfold readWeightRequired
  cases env.text? weightRequiredKey with
  | none => simp
  | some s =>
    simp only [List.contains_iff_mem, Option.some.injEq, exists_eq_left', isFlag_iff]
    constructor
    · intro h
      exact ⟨_, h, (String.toList_ofList).symm⟩
    · rintro ⟨word, hword, hs⟩
      rwa [hs, String.ofList_toList]

end FleetUpdate.Settings
