import DerivedTelemetry.Expression.Info
import DerivedTelemetry.Function.Registry
import DerivedTelemetry.Proofs.Expression.Reach

/-!
# Noting names from left to right

The names of an expression are noted while it is read.  Here they are noted from the
symbols alone.  What has been noted together with what the symbols ahead still hold is
therefore the same at every point of a run, and in the end it is the set of the names in
the text: the variables as they are written and the functions as they are registered.
-/

namespace DerivedTelemetry

/-- Notes a function under the name that it is registered with. -/
def ExpressionInfo.addCalled (registry : Registry) (info : ExpressionInfo) (name : String) :
    ExpressionInfo :=
  match registry.lookup? name with
  | some entry => info.addFunction entry.name
  | none => info

/-- The names noted when symbols are read from left to right. -/
def noted (registry : Registry) : List Symbol → ExpressionInfo → ExpressionInfo
  | .name name :: .openParen :: rest, info => noted registry rest (info.addCalled registry name)
  | .name name :: rest, info => noted registry rest (info.addVariable name)
  | _ :: rest, info => noted registry rest info
  | [], info => info

theorem noted_call (registry : Registry) (name : String) (rest : List Symbol)
    (info : ExpressionInfo) :
    noted registry (.name name :: .openParen :: rest) info =
      noted registry rest (info.addCalled registry name) := rfl

theorem noted_variable (registry : Registry) (name : String) {rest : List Symbol}
    (h : Stops 1 rest) (info : ExpressionInfo) :
    noted registry (.name name :: rest) info = noted registry rest (info.addVariable name) := by
  obtain ⟨symbol, tail, rfl, hloose⟩ := h.exists_cons
  cases symbol <;> first | rfl | exact absurd hloose (by decide)

theorem noted_cons (registry : Registry) {symbol : Symbol} (h : ∀ name, symbol ≠ .name name)
    (rest : List Symbol) (info : ExpressionInfo) :
    noted registry (symbol :: rest) info = noted registry rest info := by
  cases symbol with
  | name name => exact absurd rfl (h name)
  | _ => rfl

/-! ### The sets of names -/

/-- A list of names that is a set: ascending, without repetition. -/
def Ascending (names : List String) : Prop := names.Pairwise (· < ·)

theorem ascending_insertName {name : String} {names : List String} (h : Ascending names) :
    Ascending (insertName name names) := by
  induction names with
  | nil => simp [insertName, Ascending]
  | cons other rest ih =>
    obtain ⟨hother, hrest⟩ := List.pairwise_cons.mp h
    rw [insertName]
    split
    · rename_i hlt
      refine List.pairwise_cons.mpr ⟨?_, h⟩
      intro later hlater
      rcases List.mem_cons.mp hlater with rfl | hmem
      · exact hlt
      · exact String.lt_trans hlt (hother later hmem)
    · split
      · exact h
      · rename_i hge hne
        refine List.pairwise_cons.mpr ⟨?_, ih hrest⟩
        intro later hlater
        rcases mem_insertName.mp hlater with rfl | hmem
        · exact (Std.le_iff_lt_or_eq.mp (String.not_lt.mp hge)).resolve_right (Ne.symm hne)
        · exact hother later hmem

/-- Both sets of names are lists without repetition. -/
structure ExpressionInfo.IsAscending (info : ExpressionInfo) : Prop where
  variableNames : Ascending info.variableNames
  functionNames : Ascending info.functionNames

theorem ExpressionInfo.IsAscending.addCalled {info : ExpressionInfo} (h : info.IsAscending)
    (registry : Registry) (name : String) : (info.addCalled registry name).IsAscending := by
  rw [ExpressionInfo.addCalled]
  split
  · exact ⟨h.variableNames, ascending_insertName h.functionNames⟩
  · exact h

theorem isAscending_noted (registry : Registry) (symbols : List Symbol)
    {info : ExpressionInfo} (h : info.IsAscending) : (noted registry symbols info).IsAscending := by
  fun_induction noted registry symbols info with
  | case1 name rest info ih => exact ih (h.addCalled registry name)
  | case2 name rest info hrest ih =>
    exact ih ⟨ascending_insertName h.variableNames, h.functionNames⟩
  | case3 symbol rest info hcall hname ih => exact ih h
  | case4 info => exact h

theorem mem_variableNames_noted (registry : Registry) (symbols : List Symbol)
    (info : ExpressionInfo) (name : String) :
    name ∈ (noted registry symbols info).variableNames ↔
      name ∈ info.variableNames ∨ name ∈ bareNames symbols := by
  fun_induction noted registry symbols info with
  | case1 called rest info ih =>
    have hinfo : (info.addCalled registry called).variableNames = info.variableNames := by
      rw [ExpressionInfo.addCalled]
      split <;> rfl
    rw [ih, hinfo, bareNames]
  | case2 bare rest info hrest ih =>
    have hbare : bareNames (.name bare :: rest) = bare :: bareNames rest := by
      rw [bareNames]
      exact hrest
    rw [ih, hbare, ExpressionInfo.addVariable, mem_insertName, List.mem_cons, or_assoc,
      or_left_comm]
  | case3 symbol rest info hcall hname ih =>
    have hskip : bareNames (symbol :: rest) = bareNames rest := by
      rw [bareNames]
      · exact hcall
      · exact hname
    rw [ih, hskip]
  | case4 info => simp [bareNames]

theorem mem_functionNames_noted (registry : Registry) (symbols : List Symbol)
    (info : ExpressionInfo) (name : String) :
    name ∈ (noted registry symbols info).functionNames ↔
      name ∈ info.functionNames ∨
        ∃ called ∈ calledNames symbols, ∃ entry,
          registry.lookup? called = some entry ∧ entry.name = name := by
  fun_induction noted registry symbols info with
  | case1 called rest info ih =>
    rw [ih, calledNames, ExpressionInfo.addCalled]
    simp only [List.mem_cons, exists_eq_or_imp]
    rw [← or_assoc]
    apply or_congr_left
    split
    · rename_i entry hentry
      simp [ExpressionInfo.addFunction, mem_insertName, hentry, or_comm, eq_comm]
    · rename_i hnone
      simp [hnone]
  | case2 bare rest info hrest ih =>
    have hbare : calledNames (.name bare :: rest) = calledNames rest := by
      rw [calledNames]
      exact fun _ after _ => hrest after
    rw [ih, hbare]
    rfl
  | case3 symbol rest info hcall hname ih =>
    have hskip : calledNames (symbol :: rest) = calledNames rest := by
      rw [calledNames]
      exact hcall
    rw [ih, hskip]
  | case4 info => simp [calledNames]

end DerivedTelemetry
