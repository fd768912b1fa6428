import FluffyCore.Library.SignedWords
import FluffyCore.Migrate.Commands

/-!
# The direction of a counted migration

The step count is read as an unsigned number of 64 bits and handed to the migrator as a signed
one, whose sign is the direction. The conversion keeps a count only in the lower half of the
range. In the upper half it comes out negative, so that a counted `up` migrates down, and a
counted `down` migrates up, except for the number in the middle, whose negation fits.
-/

namespace FluffyCore.Migrate

open Library.ByteStrings Library.DecimalText Library.SignedWords

section PreRun

variable {disk : Disk} {vars : Variables} {N : Nat}

/-- The override concerns the connection string only. -/
theorem step_readSettings (vars : Variables) :
    (readSettings vars).settings.step = vars.settings.step := by
  unfold readSettings overrideDatabase
  dsimp only
  split_ifs <;> rfl

/-- A step text that is a number is stored. -/
theorem readStep_parsed (parsed : parseUint (2 ^ 64) vars.settings.step = .ok N) :
    readStep vars = (.ok (), { vars with stepN := UInt64.ofNat N }) := by
  have given : vars.settings.step ≠ [] := ((parseUint_eq_ok_iff (by decide) _ _).1 parsed).1
  rw [readStep, if_pos (List.length_pos_iff.2 given), parsed]
  rfl

/-- An accepted pre-run ends with reading the step count. -/
theorem upPersistentPreRunE_accepted (accepted : (upPersistentPreRunE disk vars).1 = .ok ()) :
    upPersistentPreRunE disk vars = readStep (readSettings vars) := by
  revert accepted
  unfold upPersistentPreRunE
  split
  · intro refused
    cases refused
  · dsimp only
    split
    · split
      · intro refused
        cases refused
      · exact fun _ => rfl
    · exact fun _ => rfl

/-- An accepted pre-run leaves the number of the step text in the variable. -/
theorem stepN_upPersistentPreRunE (accepted : (upPersistentPreRunE disk vars).1 = .ok ())
    (parsed : parseUint (2 ^ 64) vars.settings.step = .ok N) :
    (upPersistentPreRunE disk vars).2.stepN.toNat = N := by
  have small : N < 2 ^ 64 := ((parseUint_eq_ok_iff (by decide) _ _).1 parsed).2.2
  rw [← step_readSettings] at parsed
  rw [upPersistentPreRunE_accepted accepted, readStep_parsed parsed]
  exact UInt64.toNat_ofNat_of_lt' small

end PreRun

section Calls

variable {library : MigrateLibrary} {disk : Disk} {vars : Variables}

/-- A command makes the calls of its run, if the pre-run accepts and a migrator is opened. -/
theorem calls_command (md : MigrateDirection)
    (accepted : (upPersistentPreRunE disk vars).1 = .ok ()) :
    (command library disk md vars).1 =
      match openMigrator library disk (upPersistentPreRunE disk vars).2 with
      | .error _ => []
      | .ok m => (run m md (upPersistentPreRunE disk vars).2.stepN
          (upPersistentPreRunE disk vars).2.settings.version).1 := by
  unfold command
  generalize upPersistentPreRunE disk vars = preRun at accepted ⊢
  obtain ⟨result, validated⟩ := preRun
  cases accepted
  dsimp only
  unfold migrate
  cases openMigrator library disk validated <;> rfl

/-- What is asked of all counted calls is asked of the one that is made. -/
theorem forall_steps_iff {md : MigrateDirection} (converted : UInt64 → Int64)
    (counted : ∀ m steps version, 0 < steps → (run m md steps version).1 =
      [.steps (converted steps)])
    (accepted : (upPersistentPreRunE disk vars).1 = .ok ())
    (positive : 0 < (upPersistentPreRunE disk vars).2.stepN) (property : Int64 → Prop) :
    (∀ n, .steps n ∈ (command library disk md vars).1 → property n) ↔
      ∀ m, openMigrator library disk (upPersistentPreRunE disk vars).2 = .ok m →
        property (converted (upPersistentPreRunE disk vars).2.stepN) := by
  rw [calls_command md accepted]
  cases opened : openMigrator library disk (upPersistentPreRunE disk vars).2 with
  | error err => simp
  | ok m =>
    dsimp only
    rw [counted m _ _ positive]
    simp

end Calls

/-- **The direction of a counted migration is respected in the lower half of the range.** Let
the pre-run read a positive count. Unless no migrator can be opened, `up` calls `Steps` with
that count, and with no negative number, exactly when it is below the middle of the unsigned
range, and `down` with the negated count, and no positive number, exactly up to the middle. -/
theorem stepDirection_iff (library : MigrateLibrary) (disk : Disk) (vars : Variables) (N : Nat)
    (accepted : (upPersistentPreRunE disk vars).1 = .ok ())
    (parsed : parseUint (2 ^ 64) vars.settings.step = .ok N) (positive : 0 < N) :
    ((∀ n : Int64, .steps n ∈ (command library disk .migrateUp vars).1 →
        n.toInt = N ∧ 0 ≤ n.toInt) ↔
      ∀ m, openMigrator library disk (upPersistentPreRunE disk vars).2 = .ok m → N < 2 ^ 63) ∧
    ((∀ n : Int64, .steps n ∈ (command library disk .migrateDown vars).1 →
        n.toInt = -N ∧ n.toInt ≤ 0) ↔
      ∀ m, openMigrator library disk (upPersistentPreRunE disk vars).2 = .ok m → N ≤ 2 ^ 63) := by
  have isCount := stepN_upPersistentPreRunE accepted parsed
  have counting : 0 < (upPersistentPreRunE disk vars).2.stepN := by
    rw [UInt64.lt_iff_toNat_lt, isCount]
    exact positive
  subst isCount
  constructor
  · rw [forall_steps_iff (fun steps => steps.toInt64) ?_ accepted counting]
    · simp only [toInt64_exact_iff]
    · intro m steps version counted
      simp [run, counted, Migrator.perform]
  · rw [forall_steps_iff (fun steps => -steps.toInt64) ?_ accepted counting]
    · simp only [neg_toInt64_exact_iff]
    · intro m steps version counted
      simp [run, counted, Migrator.perform]

/-- A library that opens a migrator for every source. -/
def openLibrary : MigrateLibrary := ⟨fun _ _ => .ok fun _ => .ok (), .plain "no change"⟩

/-- A disk without the local folder. -/
def emptyDisk : Disk := ⟨true, .ok [], fun _ => .ok [], fun _ => .ok []⟩

/-- The variables at the start, for a database, a source and a step count. -/
def stepping (step : String) : Variables where
  settings := ⟨ascii "postgres://localhost/db", [], ascii "file://scripts", ascii step, false, 0⟩
  source := []
  stepN := 0
  verbose := false

/-- A count of three takes three steps down and three steps up. -/
theorem stepDirection_three :
    (command openLibrary emptyDisk .migrateDown (stepping "3")).1 = [.steps (-3)] ∧
      ∀ n : Int64, .steps n ∈ (command openLibrary emptyDisk .migrateUp (stepping "3")).1 →
        n.toInt = 3 ∧ 0 ≤ n.toInt := by
  refine ⟨by decide, ?_⟩
  exact (stepDirection_iff openLibrary emptyDisk (stepping "3") 3 (by decide) (by decide)
    (by decide)).1.2 fun _ _ => by decide

/-- With the largest count the pre-run accepts, `up` takes one step down and `down` one up. -/
theorem stepDirection_reversed :
    parseUint (2 ^ 64) (stepping "18446744073709551615").settings.step =
        .ok 18446744073709551615 ∧
      command openLibrary emptyDisk .migrateUp (stepping "18446744073709551615") =
        ([.steps (-1)], .ok ()) ∧
      command openLibrary emptyDisk .migrateDown (stepping "18446744073709551615") =
        ([.steps 1], .ok ()) := by
  decide +kernel

end FluffyCore.Migrate
