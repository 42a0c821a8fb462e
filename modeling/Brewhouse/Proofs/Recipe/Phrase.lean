import Brewhouse.Proofs.Script.Prologue
import Brewhouse.Recipe.Compile

/-!
What comes out of a recipe: statements with all their values, as many as a script has room for.
-/

namespace Brewhouse

/-- Whether a statement has the values that its command takes. -/
def Statement.isComplete : Statement → Bool
  | .mashWater volume => volume.isSome
  | .heat setpoint => setpoint.isSome
  | .hold payload => payload.isSome
  | .unknown _ => false
  | _ => true

namespace Recipe

/-- A sequence that came to an end began with a first part that did. -/
theorem bind_eq_ok {ε α β : Type} {x : Except ε α} {f : α → Except ε β} {b : β}
    (h : (x >>= f) = .ok b) : ∃ a, x = .ok a ∧ f a = .ok b := by
  cases x with
  | error fault => cases h
  | ok a => exact ⟨a, rfl, h⟩

theorem expansion_complete {keyword : Token} {operands : List Token} {expanded : List Statement}
    (h : expansion keyword operands = .ok expanded) :
    ∀ s ∈ expanded, s.isComplete = true := by
  unfold expansion at h
  cases hkind : keyword.kind <;> rw [hkind] at h
  case initialise | mashing | sparging | pause =>
    cases h
    decide
  case mashVolume =>
    obtain ⟨volume, -, h⟩ := bind_eq_ok h
    cases h
    exact List.forall_mem_singleton.mpr rfl
  case heat =>
    obtain ⟨celsius, -, h⟩ := bind_eq_ok h
    cases h
    exact List.forall_mem_singleton.mpr rfl
  case hold =>
    obtain ⟨celsius, -, h⟩ := bind_eq_ok h
    obtain ⟨-, -, h⟩ := bind_eq_ok h
    obtain ⟨time, -, h⟩ := bind_eq_ok h
    cases h
    exact List.forall_mem_singleton.mpr rfl
  all_goals cases h

theorem parse_spec {room : Nat} {tokens : List Token} {statements : List Statement}
    (h : parse room tokens = .ok statements) :
    statements.length ≤ room ∧ ∀ s ∈ statements, s.isComplete = true := by
  induction room, tokens using parse.induct generalizing statements with
  | case1 room =>
      rw [parse] at h
      cases h
      exact ⟨Nat.zero_le _, List.forall_mem_nil _⟩
  | case2 room keyword rest ih =>
      rw [parse] at h
      obtain ⟨expanded, hexpanded, h⟩ := bind_eq_ok h
      split at h
      · cases h
      · next hroom =>
          obtain ⟨further, hfurther, h⟩ := bind_eq_ok h
          cases h
          obtain ⟨hlength, hcomplete⟩ := ih expanded hfurther
          refine ⟨?_, ?_⟩
          · rw [List.length_append]
            omega
          · exact List.forall_mem_append.mpr ⟨expansion_complete hexpanded, hcomplete⟩

theorem compile_spec {source : String} {r : Recipe} (h : compile source = .ok r) :
    r.statements.length ≤ Script.capacity ∧ ∀ s ∈ r.statements, s.isComplete = true := by
  obtain ⟨tokens, -, h⟩ := bind_eq_ok h
  obtain ⟨statements, hparse, h⟩ := bind_eq_ok h
  cases h
  exact parse_spec hparse

/-- No statement of a recipe is lost in its script. -/
theorem script_eq {source : String} {r : Recipe} (h : compile source = .ok r)
    (model : ThermalModel) :
    r.script model = { Script.empty model with statements := r.statements } :=
  Script.ofStatements_eq model (compile_spec h).1

end Recipe

end Brewhouse
