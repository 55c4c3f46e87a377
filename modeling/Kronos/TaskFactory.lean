import Kronos.ExampleTasks

/-!
# Task factory

Built-in tasks made for a submission or from a durable specification. The
error texts are what the thrown exceptions carry.
-/

set_option autoImplicit false

namespace Kronos

structure CreatedTask where
  task : BuiltinTask
  options : SubmissionOptions
  deriving DecidableEq

namespace TaskFactory

def parsePositive (value : Bytes) (label : String) : Except Bytes UInt64 :=
  match fromCharsUInt64 value with
  | some parsed =>
      if parsed = 0 then .error (text label ++ text " must be a positive integer")
      else .ok parsed
  | none => .error (text label ++ text " must be a positive integer")

def parseNonnegative (value : Bytes) (label : String) : Except Bytes UInt64 :=
  match fromCharsUInt64 value with
  | some parsed => .ok parsed
  | none => .error (text label ++ text " must be a non-negative integer")

def comma : UInt8 := 44

def splitPayload (payload : Bytes) : List Bytes := payload.splitOn comma

def makePrime (upperBoundText : Bytes) (priority : Int32) : Except Bytes CreatedTask := do
  let upperBound ← parsePositive upperBoundText "upper bound"
  let estimate := if upperBound > 1 then upperBound - 1 else 1
  return {
    task := .prime { upperBound }
    options :=
      { name := text "prime-" ++ uint64Text upperBound
        priority
        estimatedWorkUnits := estimate
        durableSpec := some ⟨text "prime", uint64Text upperBound⟩ } }

/-- `std::chrono::milliseconds::max().count()`. -/
def millisecondsMax : UInt64 := 0x7FFFFFFFFFFFFFFF

def makeStep (stepsText delayText : Bytes) (priority : Int32) : Except Bytes CreatedTask := do
  let steps ← parsePositive stepsText "step count"
  let delay ← parseNonnegative delayText "delay milliseconds"
  if delay > millisecondsMax then throw (text "delay milliseconds is too large")
  return {
    task := .step { totalSteps := steps, delayPerStep := delay.toInt64 }
    options :=
      { name := text "step-" ++ uint64Text steps
        priority
        estimatedWorkUnits := steps
        durableSpec := some
          ⟨text "step", uint64Text steps ++ comma :: uint64Text delay⟩ } }

def createForSubmission (type : Bytes) (arguments : List Bytes) (priority : Int32) :
    Except Bytes CreatedTask :=
  if type = text "prime" then
    match arguments with
    | [upperBound] => makePrime upperBound priority
    | _ => .error (text "usage: submit prime <upper-bound> [priority]")
  else if type = text "step" then
    match arguments with
    | [steps, delay] => makeStep steps delay priority
    | _ => .error (text "usage: submit step <steps> <delay-ms> [priority]")
  else .error (text "unknown task type: " ++ type)

def restore (specification : DurableTaskSpec) : Except Bytes BuiltinTask :=
  if specification.type = text "prime" then
    (makePrime specification.payload 0).map CreatedTask.task
  else if specification.type = text "step" then
    match splitPayload specification.payload with
    | [steps, delay] => (makeStep steps delay 0).map CreatedTask.task
    | _ => .error (text "invalid durable step task payload")
  else .error (text "cannot restore unknown task type: " ++ specification.type)

/-- What the engine asks of the options of a durable submission. -/
def Durable (options : SubmissionOptions) : Prop :=
  options.estimatedWorkUnits ≠ 0 ∧ ∃ spec, options.durableSpec = some spec ∧ spec.type ≠ []

theorem parsePositive_ok_iff {value : Bytes} {label : String} {parsed : UInt64} :
    parsePositive value label = .ok parsed ↔ fromCharsUInt64 value = some parsed ∧ parsed ≠ 0 := by
  unfold parsePositive
  cases read : fromCharsUInt64 value with
  | none => simp
  | some number =>
      by_cases zero : number = 0
      · simp only [zero, if_true, reduceCtorEq, false_iff, Option.some.injEq]
        rintro ⟨same, nonzero⟩
        exact nonzero same.symm
      · simp only [zero, if_false, Except.ok.injEq, Option.some.injEq]
        constructor
        · rintro rfl
          exact ⟨rfl, zero⟩
        · exact And.left

theorem parseNonnegative_ok_iff {value : Bytes} {label : String} {parsed : UInt64} :
    parseNonnegative value label = .ok parsed ↔ fromCharsUInt64 value = some parsed := by
  unfold parseNonnegative
  cases read : fromCharsUInt64 value with
  | none => simp
  | some number => simp

/-- What `make_prime` makes of a bound. -/
def primeCreated (upperBound : UInt64) (priority : Int32) : CreatedTask where
  task := .prime { upperBound }
  options :=
    { name := text "prime-" ++ uint64Text upperBound
      priority
      estimatedWorkUnits := if upperBound > 1 then upperBound - 1 else 1
      durableSpec := some ⟨text "prime", uint64Text upperBound⟩ }

/-- What `make_step` makes of its two numbers. -/
def stepCreated (steps delay : UInt64) (priority : Int32) : CreatedTask where
  task := .step { totalSteps := steps, delayPerStep := delay.toInt64 }
  options :=
    { name := text "step-" ++ uint64Text steps
      priority
      estimatedWorkUnits := steps
      durableSpec := some ⟨text "step", uint64Text steps ++ comma :: uint64Text delay⟩ }

theorem makePrime_ok_iff {upperBoundText : Bytes} {priority : Int32} {created : CreatedTask} :
    makePrime upperBoundText priority = .ok created ↔
      ∃ upperBound, fromCharsUInt64 upperBoundText = some upperBound ∧ upperBound ≠ 0 ∧
        created = primeCreated upperBound priority := by
  constructor
  · intro made
    unfold makePrime at made
    cases read : parsePositive upperBoundText "upper bound" with
    | error what =>
        rw [read] at made
        cases made
    | ok upperBound =>
        rw [read] at made
        cases made
        obtain ⟨parsed, nonzero⟩ := parsePositive_ok_iff.mp read
        exact ⟨upperBound, parsed, nonzero, rfl⟩
  · rintro ⟨upperBound, parsed, nonzero, rfl⟩
    rw [makePrime, parsePositive_ok_iff.mpr ⟨parsed, nonzero⟩]
    rfl

theorem makeStep_ok_iff {stepsText delayText : Bytes} {priority : Int32} {created : CreatedTask} :
    makeStep stepsText delayText priority = .ok created ↔
      ∃ steps delay, fromCharsUInt64 stepsText = some steps ∧ steps ≠ 0 ∧
        fromCharsUInt64 delayText = some delay ∧ delay ≤ millisecondsMax ∧
        created = stepCreated steps delay priority := by
  constructor
  · intro made
    unfold makeStep at made
    cases read : parsePositive stepsText "step count" with
    | error what =>
        rw [read] at made
        cases made
    | ok steps =>
        rw [read] at made
        cases readDelay : parseNonnegative delayText "delay milliseconds" with
        | error what =>
            rw [readDelay] at made
            cases made
        | ok delay =>
            rw [readDelay] at made
            simp only [bind, Except.bind] at made
            split at made
            · cases made
            · next small =>
                cases made
                obtain ⟨parsed, nonzero⟩ := parsePositive_ok_iff.mp read
                exact ⟨steps, delay, parsed, nonzero, parseNonnegative_ok_iff.mp readDelay,
                  UInt64.not_lt.mp small, rfl⟩
  · rintro ⟨steps, delay, parsed, nonzero, parsedDelay, small, rfl⟩
    rw [makeStep, parsePositive_ok_iff.mpr ⟨parsed, nonzero⟩,
      parseNonnegative_ok_iff.mpr parsedDelay]
    simp only [bind, Except.bind]
    rw [if_neg (UInt64.not_lt.mpr small)]
    rfl

/-- What the factory accepts, and what it makes of it. -/
theorem createForSubmission_ok_iff {type : Bytes} {arguments : List Bytes} {priority : Int32}
    {created : CreatedTask} :
    createForSubmission type arguments priority = .ok created ↔
      (∃ upperBoundText, type = text "prime" ∧ arguments = [upperBoundText] ∧
          makePrime upperBoundText priority = .ok created) ∨
        ∃ stepsText delayText, type = text "step" ∧ arguments = [stepsText, delayText] ∧
          makeStep stepsText delayText priority = .ok created := by
  have apart : text "step" ≠ text "prime" := by decide
  constructor
  · intro made
    unfold createForSubmission at made
    split at made
    · next isPrime =>
        split at made
        · exact .inl ⟨_, isPrime, rfl, made⟩
        · cases made
    · split at made
      · next isStep =>
          split at made
          · exact .inr ⟨_, _, isStep, rfl, made⟩
          · cases made
      · cases made
  · rintro (⟨upperBoundText, rfl, rfl, made⟩ | ⟨stepsText, delayText, rfl, rfl, made⟩)
    · rw [createForSubmission, if_pos rfl]
      exact made
    · rw [createForSubmission, if_neg apart, if_pos rfl]
      exact made

theorem estimate_primeCreated {upperBound : UInt64} (nonzero : upperBound ≠ 0) (priority : Int32) :
    (primeCreated upperBound priority).options.estimatedWorkUnits.toNat =
      max (upperBound.toNat - 1) 1 := by
  have positive : upperBound.toNat ≠ 0 := fun zero => nonzero (UInt64.toNat_inj.mp zero)
  simp only [primeCreated]
  split
  · next above =>
      have bound : (1 : UInt64).toNat < upperBound.toNat := above
      rw [UInt64.toNat_one] at bound
      rw [UInt64.toNat_sub_of_le _ _ (UInt64.le_of_lt above), UInt64.toNat_one]
      omega
  · next small =>
      have bound : upperBound.toNat ≤ (1 : UInt64).toNat := UInt64.not_lt.mp small
      rw [UInt64.toNat_one] at bound ⊢
      omega

theorem primeCreated_estimate_ne_zero {upperBound : UInt64} (nonzero : upperBound ≠ 0)
    (priority : Int32) : (primeCreated upperBound priority).options.estimatedWorkUnits ≠ 0 := by
  intro zero
  have estimate := estimate_primeCreated nonzero priority
  rw [zero, UInt64.toNat_zero] at estimate
  omega

theorem durable_createForSubmission {type : Bytes} {arguments : List Bytes} {priority : Int32}
    {created : CreatedTask} (made : createForSubmission type arguments priority = .ok created) :
    Durable created.options := by
  rcases createForSubmission_ok_iff.mp made with ⟨_, _, _, made⟩ | ⟨_, _, _, _, made⟩
  · obtain ⟨upperBound, _, nonzero, rfl⟩ := makePrime_ok_iff.mp made
    exact ⟨primeCreated_estimate_ne_zero nonzero priority, _, rfl,
      show text "prime" ≠ [] by decide⟩
  · obtain ⟨steps, delay, _, nonzero, _, _, rfl⟩ := makeStep_ok_iff.mp made
    exact ⟨nonzero, _, rfl, show text "step" ≠ [] by decide⟩

end TaskFactory

end Kronos
