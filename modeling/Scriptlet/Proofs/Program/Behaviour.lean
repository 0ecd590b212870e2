import Scriptlet.Proofs.Program.Nesting
import Scriptlet.Proofs.Program.RoundTrip

/-!
# What a program does after it is read back

Only the sign of a zero is lost on the way through a text. Literals of a program have
no sign, so nothing but labels can change, and a `switch` compares those without
regard to it. The block around a program that is read back makes no difference
either: it is checked and executed like the program itself.
-/

namespace Scriptlet

open Binary64

theorem Expr.reread_eq_self {e : Expr} (literals : ∀ x ∈ e.literals, rereadNumber x = x) :
    e.reread = e := by
  induction e with
  | num x => rw [reread, literals x (by simp [Expr.literals])]
  | bool | var | input => rfl
  | unary op operand ih => rw [reread, ih literals]
  | binary op left right atLeft atRight =>
      simp only [Expr.literals, List.forall_mem_append] at literals
      rw [reread, atLeft literals.1, atRight literals.2]

namespace Stmt

/-- The expressions of a statement are read back as they are. -/
def Exact (s : Stmt) : Prop := ∀ e ∈ s.exprs, e.reread = e

/-- A number without a sign is read back as it is, zero included. -/
theorem FromText.exact {s : Stmt} (text : s.FromText) : s.Exact := by
  intro e own
  refine Expr.reread_eq_self fun x literal => ?_
  obtain ⟨r, number, rfl⟩ := text.literals e own x literal
  rw [rereadNumber]
  split
  · rename_i zero
    rw [beq_zero_iff, (rank_ofRank false number).2] at zero
    rw [zero, ofRank_zero]
  · rfl

private theorem checkAll_reread {body : List Stmt} (each : ∀ s ∈ body, s.reread.check = s.check) :
    checkAll (rereadAll body) = checkAll body := by
  induction body with
  | nil => rfl
  | cons s rest ih =>
      simp only [List.forall_mem_cons] at each
      simp only [rereadAll, checkAll, each.1, ih each.2]

private theorem checkOption_reread {missing : Option Stmt}
    (each : ∀ s, missing = some s → s.reread.check = s.check) :
    checkOption (rereadOption missing) = checkOption missing := by
  cases missing with
  | none => rfl
  | some s => simp only [rereadOption, checkOption, each s rfl]

private theorem checkCases_reread (ty : Ty) {entries : List (Value × Stmt)}
    (each : ∀ entry ∈ entries, entry.2.reread.check = entry.2.check) :
    checkCases ty (rereadCases entries) = checkCases ty entries := by
  induction entries with
  | nil => rfl
  | cons entry rest ih =>
      simp only [List.forall_mem_cons] at each
      simp only [rereadCases, checkCases, Value.ty_reread, each.1, ih each.2]

/-- A check of what is read back is the same check. -/
theorem check_reread {s : Stmt} (exact : s.Everywhere Exact) : s.reread.check = s.check := by
  induction s with
  | declare name e => rw [reread, exact.here e (by simp [exprs])]
  | assign name e => rw [reread, exact.here e (by simp [exprs])]
  | print e => rw [reread, exact.here e (by simp [exprs])]
  | block body ih =>
      rw [reread, check, check, checkAll_reread]
      exact fun s member => ih s member (exact.part (.block member))
  | branch condition onTrue onFalse atTrue atFalse =>
      rw [reread, exact.here condition (by simp [exprs]), check, check,
        atTrue (exact.part .onTrue), checkOption_reread]
      rintro s rfl
      exact atFalse s rfl (exact.part .onFalse)
  | loop condition body ih =>
      rw [reread, exact.here condition (by simp [exprs]), check, check,
        ih (exact.part .body)]
  | switch focus cases fallback atCases atFallback =>
      obtain ⟨entries⟩ := cases
      have inFallback : checkOption (rereadOption fallback) = checkOption fallback := by
        refine checkOption_reread ?_
        rintro s rfl
        exact atFallback s rfl (exact.part .fallback)
      have inCases (ty : Ty) : checkCases ty (rereadCases entries) = checkCases ty entries :=
        checkCases_reread ty fun entry member => atCases entry member (exact.part (.case member))
      rw [reread, exact.here focus (by simp [exprs]), check, check]
      simp only [inCases, inFallback]

variable {σ : Type} [InputSource σ] {rounds : Nat}

private theorem execAll_reread {body : List Stmt}
    (each : ∀ s ∈ body, (s.reread.exec rounds : Run σ Unit) = s.exec rounds) :
    (execAll rounds (rereadAll body) : Run σ Unit) = execAll rounds body := by
  induction body with
  | nil => rfl
  | cons s rest ih =>
      simp only [List.forall_mem_cons] at each
      simp only [rereadAll, execAll, each.1, ih each.2]

private theorem execOption_reread {missing : Option Stmt}
    (each : ∀ s, missing = some s → (s.reread.exec rounds : Run σ Unit) = s.exec rounds) :
    (execOption rounds (rereadOption missing) : Run σ Unit) = execOption rounds missing := by
  cases missing with
  | none => rfl
  | some s => simp only [rereadOption, execOption, each s rfl]

private theorem execCase_reread (v : Value) (otherwise : Run σ Unit)
    {entries : List (Value × Stmt)}
    (each : ∀ entry ∈ entries, (entry.2.reread.exec rounds : Run σ Unit) = entry.2.exec rounds) :
    execCase rounds v otherwise (rereadCases entries) = execCase rounds v otherwise entries := by
  induction entries with
  | nil => rfl
  | cons entry rest ih =>
      simp only [List.forall_mem_cons] at each
      simp only [rereadCases, execCase, Value.reread_sameKey, each.1, ih each.2]

/-- A run of what is read back is the same run. -/
theorem exec_reread {s : Stmt} (exact : s.Everywhere Exact) :
    (s.reread.exec rounds : Run σ Unit) = s.exec rounds := by
  induction s with
  | declare name e => rw [reread, exact.here e (by simp [exprs])]
  | assign name e => rw [reread, exact.here e (by simp [exprs])]
  | print e => rw [reread, exact.here e (by simp [exprs])]
  | block body ih =>
      rw [reread, exec, exec, execAll_reread]
      exact fun s member => ih s member (exact.part (.block member))
  | branch condition onTrue onFalse atTrue atFalse =>
      rw [reread, exact.here condition (by simp [exprs]), exec, exec,
        atTrue (exact.part .onTrue), execOption_reread]
      rintro s rfl
      exact atFalse s rfl (exact.part .onFalse)
  | loop condition body ih =>
      rw [reread, exact.here condition (by simp [exprs]), exec, exec,
        ih (exact.part .body)]
  | switch focus cases fallback atCases atFallback =>
      obtain ⟨entries⟩ := cases
      have inFallback : (execOption rounds (rereadOption fallback) : Run σ Unit) =
          execOption rounds fallback := by
        refine execOption_reread ?_
        rintro s rfl
        exact atFallback s rfl (exact.part .fallback)
      have inCases (v : Value) (otherwise : Run σ Unit) :
          execCase rounds v otherwise (rereadCases entries) =
            execCase rounds v otherwise entries :=
        execCase_reread v otherwise fun entry member =>
          atCases entry member (exact.part (.case member))
      rw [reread, exact.here focus (by simp [exprs]), exec, exec]
      simp only [inCases, inFallback]

end Stmt

namespace Program

variable {file source : String} {p : Stmt}

/-- A program with finite numbers, printed and read back, gets the same verdict and
does the same on every input. -/
theorem readBack_behaves_alike (parsed : ofSource file source = .ok p)
    (finite : p.Everywhere Stmt.FiniteNumbers) (file' : String) :
    ∃ p', ofSource file' p.render = .ok p' ∧ p'.typecheck = p.typecheck ∧
      ∀ (σ : Type) [InputSource σ] (rounds : Nat) (input : σ),
        p'.execute rounds input = p.execute rounds input := by
  have text := fromText_of_ofSource parsed
  have exact : p.Everywhere Stmt.Exact := text.mono fun _ own => own.exact
  have read := ofSource_render file' (printable_of_finite parsed finite)
    (text.mono fun _ own => own.keyed)
  obtain ⟨_, body, -, rfl, -⟩ := exists_written parsed
  refine ⟨_, read, ?_, ?_⟩
  · calc (Stmt.block [(Stmt.block body).reread]).typecheck
      _ = (Stmt.block body).reread.typecheck := Stmt.typecheck_nested _
      _ = (Stmt.block body).typecheck := by rw [Stmt.typecheck, Stmt.check_reread exact]; rfl
  · intro σ _ rounds input
    calc (Stmt.block [(Stmt.block body).reread]).execute rounds input
      _ = (Stmt.block body).reread.execute rounds input := Stmt.execute_nested rounds _ input
      _ = (Stmt.block body).execute rounds input := by
          rw [Stmt.execute, Stmt.exec_reread exact]; rfl

theorem negativeZero_behaves_alike :
    ∃ p, ofSource "main" "switch (0) \x7b case -0: print 1; \x7d" = .ok p ∧
      ∃ p', ofSource "dump" p.render = .ok p' ∧ p'.typecheck = p.typecheck ∧
        ∀ (σ : Type) [InputSource σ] (rounds : Nat) (input : σ),
          p'.execute rounds input = p.execute rounds input := by
  have parsed : ofSource "main" "switch (0) \x7b case -0: print 1; \x7d" =
      .ok (.block [.switch (.num 0) (.ofList [(.num (-0), .print (.num 1))]) none]) := by
    with_unfolding_all rfl
  refine ⟨_, parsed, readBack_behaves_alike parsed ?_ "dump"⟩
  refine Stmt.everywhere_block.mpr ⟨Stmt.finiteNumbers_block _, ?_⟩
  refine List.forall_mem_singleton.mpr ?_
  refine Stmt.everywhere_switch.mpr ⟨⟨by decide, fun x labelled => ?_⟩, ?_⟩
  · obtain rfl : x = -0 := Value.num.inj (List.mem_singleton.mp labelled)
    decide
  · refine List.forall_mem_singleton.mpr (Stmt.everywhere_print.mpr ⟨by decide, ?_⟩)
    exact fun _ labelled => absurd labelled List.not_mem_nil

end Program
end Scriptlet
