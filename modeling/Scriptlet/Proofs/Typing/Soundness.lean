import Scriptlet.Proofs.Typing.Safety

/-!
# Failures of checked programs

A checked program can fail on input, and it can fail in the second round of a
loop whose body is a bare declaration, in no other way. In that round the name
is declared again or, before that, the condition or the value meets it at the
type it was declared with instead of the outer one. The second case is the only
way to a type fault: `execute_typeFault_iff` says exactly which runs end in one.
-/

namespace Scriptlet.Stmt

variable {σ : Type} [InputSource σ] {rounds : Nat} {types types' : Scope Ty} {m m' : Machine σ}
variable {s : Stmt} {h : Halt}

theorem not_excused_scope (cause : ScopeError) :
    ¬ RuntimeError.Excused (fun _ => False) (.scope cause) := by
  cases cause <;> exact fun excuse => excuse

theorem not_excused_type (fault : TypeFault) :
    ¬ RuntimeError.Excused (fun _ => False) (.type fault) := fun excuse => excuse

/-- In scopes that agree, what stops a checked statement is explained. -/
theorem explained_of_exec (typed : InputSource.Typed σ) (agrees : types.Agrees m.scope)
    (checked : s.check types = (.ok (), types')) (ran : s.exec rounds m = (.error h, m')) :
    Explained (fun _ => False) rounds s m h := by
  have fits := Scope.agrees_iff_fits.mp agrees
  exact ((Attempt.ensures_of_error ran).mp (safe typed s types types' m fits checked)).2

/-- A loop that breaks off in its second round makes the run that reaches it fail. -/
theorem Reaches.fails_of_breaksAgain {condition value : Expr} {name : String} {m₀ : Machine σ}
    (reaches : Reaches rounds (s, m) (.loop condition (.declare name value), m₀))
    (breaks : BreaksAgain rounds condition name value m₀ h) :
    ∃ m', s.exec rounds m = (.error h, m') := by
  obtain ⟨allowed, m₁, m₂, sofar, failing, _⟩ := breaks
  have keeps : Run.KeepsDepth ((Stmt.declare name value).exec rounds : Run σ Unit) :=
    keepsDepth_exec rounds _
  have stopped := sofar.fails failing allowed
  have deeper : m₂.scope.depth = m₀.scope.depth + 1 := by
    have same := (Run.keepsDepth_eval condition).repeatWhile keeps rounds m₀.inner
    rwa [stopped] at same
  obtain ⟨m₃, failed⟩ := Run.within_error stopped deeper
  exact reaches.fails failed

/-- A checked program runs into a type fault exactly if it comes to the second
round of a loop whose body is a bare declaration, and there the condition or the
value fails because the name has changed its type. So a program in which no loop
mentions the name that its body declares never does. -/
theorem execute_typeFault_iff (typed : InputSource.Typed σ) {program : Stmt}
    (checked : program.typecheck = .ok ()) (rounds : Nat) (input : σ) :
    ((∃ fault m, program.execute rounds input = (.error (.failed (.type fault)), m)) ↔
      ∃ condition name value m fault,
        Reaches rounds (program, .start input) (.loop condition (.declare name value), m) ∧
        BreaksAgain rounds condition name value m (.failed (.type fault))) ∧
    ((∀ condition name value, program.Contains (.loop condition (.declare name value)) →
        name ∉ condition.names ∧ name ∉ value.names) →
      ∀ fault m, program.execute rounds input ≠ (.error (.failed (.type fault)), m)) := by
  have accepted : program.check .empty = (.ok (), (program.check .empty).2) := Prod.ext checked rfl
  have source : ∀ fault m, program.execute rounds input = (.error (.failed (.type fault)), m) →
      ∃ condition name value m₀,
        Reaches rounds (program, .start input) (.loop condition (.declare name value), m₀) ∧
        BreaksAgain rounds condition name value m₀ (.failed (.type fault)) := by
    intro fault m ran
    cases explained_of_exec typed Scope.agrees_empty accepted ran with
    | excused excuse => exact absurd excuse (not_excused_type fault)
    | secondRound reaches breaks => exact ⟨_, _, _, _, reaches, breaks⟩
  refine ⟨⟨?_, ?_⟩, ?_⟩
  · rintro ⟨fault, m, ran⟩
    obtain ⟨condition, name, value, m₀, reaches, breaks⟩ := source fault m ran
    exact ⟨condition, name, value, m₀, fault, reaches, breaks⟩
  · rintro ⟨condition, name, value, m₀, fault, reaches, breaks⟩
    obtain ⟨m, failed⟩ := reaches.fails_of_breaksAgain breaks
    exact ⟨fault, m, failed⟩
  · intro apart fault m ran
    obtain ⟨condition, name, value, m₀, reaches, _, m₁, m₂, _, _, cause⟩ := source fault m ran
    obtain ⟨notInCondition, notInValue⟩ := apart condition name value reaches.contains
    rcases cause with other | ⟨_, _, mentioned, _⟩
    · cases other
    · exact mentioned.elim notInCondition notInValue

/-- A checked program whose loop hides a variable behind a number of the same name
and goes on to ask for a truth value. -/
def hidingLoop : Stmt :=
  .block [.declare "x" (.bool false),
    .loop (.binary .and (.unary .not (.var "x")) (.input .bool)) (.declare "x" (.num 1))]

/-- Not every checked program is free of type faults. -/
theorem hidingLoop_typeFault :
    hidingLoop.typecheck = .ok () ∧ InputSource.Typed Queue ∧
      ∃ m, hidingLoop.execute 2 ([.bool true, .bool false] : Queue) =
        (.error (.failed (.type (.expected .bool (.num 1)))), m) :=
  ⟨rfl, Queue.typed, _, rfl⟩

/-- Its run comes to the second round of the loop. -/
theorem hidingLoop_breaksAgain :
    hidingLoop.typecheck = .ok () ∧
      ∃ condition name value m fault,
        Reaches 2 (hidingLoop, .start ([.bool true, .bool false] : Queue))
          (.loop condition (.declare name value), m) ∧
        BreaksAgain 2 condition name value m (.failed (.type fault)) :=
  ⟨rfl, (execute_typeFault_iff Queue.typed rfl 2 _).1.mp ⟨_, _, rfl⟩⟩

/-- A checked statement that returns has succeeded, or failed on input, or failed
at a loop whose body is a bare declaration: by declaring the name again, or by a
type fault, and then the loop mentions the name. Names are never unbound, and
without such a loop only input can fail. -/
theorem exec_result_cases (typed : InputSource.Typed σ) (agrees : types.Agrees m.scope)
    (checked : s.check types = (.ok (), types')) {result : Except Halt Unit}
    (ran : s.exec rounds m = (result, m')) (returns : result ≠ .error .unfinished) :
    (result = .ok () ∨ (∃ cause, result = .error (.failed (.input cause))) ∨
      ∃ condition name value, s.Contains (.loop condition (.declare name value)) ∧
        (result = .error (.failed (.scope (.duplicate name))) ∨
          ∃ fault, result = .error (.failed (.type fault)) ∧
            (name ∈ condition.names ∨ name ∈ value.names))) ∧
    (∀ name, result ≠ .error (.failed (.scope (.undefined name))) ∧
      result ≠ .error (.failed (.scope (.undeclared name)))) ∧
    ((∀ condition name value, ¬ s.Contains (.loop condition (.declare name value))) →
      result = .ok () ∨ ∃ cause, result = .error (.failed (.input cause))) := by
  have cases : result = .ok () ∨ (∃ cause, result = .error (.failed (.input cause))) ∨
      ∃ condition name value, s.Contains (.loop condition (.declare name value)) ∧
        (result = .error (.failed (.scope (.duplicate name))) ∨
          ∃ fault, result = .error (.failed (.type fault)) ∧
            (name ∈ condition.names ∨ name ∈ value.names)) := by
    match result, ran with
    | .ok (), _ => exact .inl rfl
    | .error h, ran =>
        cases explained_of_exec typed agrees checked ran with
        | unfinished => exact absurd rfl returns
        | @excused e excuse =>
            cases e with
            | input cause => exact .inr (.inl ⟨cause, rfl⟩)
            | scope cause => exact absurd excuse (not_excused_scope cause)
            | type fault => exact absurd excuse (not_excused_type fault)
        | @secondRound condition value name m₀ _ reaches breaks =>
            obtain ⟨_, _, _, _, _, cause⟩ := breaks
            refine .inr (.inr ⟨condition, name, value, reaches.contains, ?_⟩)
            rcases cause with rfl | ⟨fault, rfl, mentioned, _⟩
            · exact .inl rfl
            · exact .inr ⟨fault, rfl, mentioned⟩
  refine ⟨cases, fun name => ⟨?_, ?_⟩, fun none => ?_⟩
  · rintro rfl
    simp at cases
  · rintro rfl
    simp at cases
  · rcases cases with done | onInput | ⟨condition, name, value, inside, _⟩
    · exact .inl done
    · exact .inr onInput
    · exact absurd inside (none condition name value)

/-- A loop that declares again what it asks for. -/
def redeclaringLoop : Stmt := .loop (.var "x") (.declare "x" (.num 1))

/-- Its second round fails, and the failure leads back to the loop. -/
theorem redeclaringLoop_result :
    (redeclaringLoop.exec 2 ⟨⟨[], [("x", .bool true)]⟩, ([] : Queue), #[]⟩).1 =
      .error (.failed (.scope (.duplicate "x"))) ∧
    ∃ condition value, redeclaringLoop.Contains (.loop condition (.declare "x" value)) := by
  have agrees : (⟨[], [("x", .bool)]⟩ : Scope Ty).Agrees ⟨[], [("x", .bool true)]⟩ := by
    refine ⟨.nil, fun name => ?_⟩
    by_cases same : name = "x" <;> simp [same, Value.ty]
  have checked : redeclaringLoop.check ⟨[], [("x", .bool)]⟩ = (.ok (), ⟨[], [("x", .bool)]⟩) := rfl
  have ran : redeclaringLoop.exec 2 ⟨⟨[], [("x", .bool true)]⟩, ([] : Queue), #[]⟩ =
      (.error (.failed (.scope (.duplicate "x"))), ⟨⟨[], [("x", .bool true)]⟩, [], #[]⟩) := rfl
  refine ⟨congrArg Prod.fst ran, ?_⟩
  rcases (exec_result_cases Queue.typed agrees checked ran (by simp)).1 with
    done | ⟨cause, onInput⟩ | ⟨condition, name, value, inside, again | ⟨fault, other, _⟩⟩
  · cases done
  · cases onInput
  · cases again
    exact ⟨condition, value, inside⟩
  · cases other

end Scriptlet.Stmt
