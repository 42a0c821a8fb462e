import Brewhouse.Proofs.Recipe.Grammar

/-!
Changes of tokens that the grammar does not see. It asks a token for its kind and, where it is a number,
for the number it denotes; texts and lines show in faults only. So if tokens are changed and keep these,
they are parsed to the same statements, and a fault changes the way the tokens do.
-/

namespace Brewhouse.Recipe

/-- Tokens keep kinds and numbers when they are changed by `f`, and faults change by `g` with them. -/
structure KeepsMeaning (f : Token → Token) (g : RecipeFault → RecipeFault) : Prop where
  kind : ∀ t, (f t).kind = t.kind
  number : ∀ t, Exact.Decimal.ofChars (f t).text = Exact.Decimal.ofChars t.text
  unexpected : ∀ t, (f t).unexpected = g t.unexpected
  outOfRange : ∀ t : Token, .valueOutOfRange (f t).line (f t).text = g (.valueOutOfRange t.line t.text)
  tooMany : ∀ t : Token, .tooManyStatements (f t).line = g (.tooManyStatements t.line)
  ended : .unexpectedEnd = g .unexpectedEnd

theorem mapError_bind {ε ε' α β : Type} (f : ε → ε') (x : Except ε α) (g : α → Except ε β) :
    (x >>= g).mapError f = x.mapError f >>= fun a => (g a).mapError f := by
  cases x <;> rfl

namespace KeepsMeaning

variable {f : Token → Token} {g : RecipeFault → RecipeFault} (h : KeepsMeaning f g)

include h

theorem next (tokens : List Token) :
    next (tokens.map f) = ((next tokens).map f).mapError g := by
  cases tokens with
  | nil => exact congrArg Except.error h.ended
  | cons t rest => rfl

theorem numeral (tokens : List Token) :
    Recipe.number (tokens.map f) = ((Recipe.number tokens).map f).mapError g := by
  cases tokens with
  | nil => exact congrArg Except.error h.ended
  | cons t rest =>
      change (if (f t).kind = .integer ∨ (f t).kind = .decimal then _ else _) =
        ((if t.kind = .integer ∨ t.kind = .decimal then _ else _ : Except _ Token).map _).mapError _
      rw [h.kind]
      split
      · rfl
      · exact congrArg Except.error (h.unexpected t)

theorem expect (kind : TokenKind) (tokens : List Token) :
    expect kind (tokens.map f) = (expect kind tokens).mapError g := by
  cases tokens with
  | nil => exact congrArg Except.error h.ended
  | cons t rest =>
      change (if (f t).kind = kind then _ else _) = (if t.kind = kind then _ else _ : Except _ _).mapError _
      rw [h.kind]
      split
      · rfl
      · exact congrArg Except.error (h.unexpected t)

theorem measured {α : Type} {a : Token → Token → Except RecipeFault α}
    (ha : ∀ digits unit, a (f digits) (f unit) = (a digits unit).mapError g)
    (tokens : List Token) : measured a (tokens.map f) = (measured a tokens).mapError g := by
  unfold Recipe.measured
  rw [h.numeral, ← List.map_drop, h.next]
  cases Recipe.number tokens with
  | error fault => rfl
  | ok digits =>
      cases Recipe.next (tokens.drop 1) with
      | error fault => rfl
      | ok unit => exact ha digits unit

theorem amount (factor? : TokenKind → Option Nat) (tokens : List Token) :
    amount factor? (tokens.map f) = (amount factor? tokens).mapError g := by
  refine h.measured (a := amountOf factor?) (fun digits unit => ?_) tokens
  unfold amountOf
  rw [h.kind, h.number]
  cases factor? unit.kind with
  | none => exact congrArg Except.error (h.unexpected unit)
  | some factor =>
      dsimp only
      cases wholeAmount? (Exact.Decimal.ofChars digits.text) factor with
      | none => exact congrArg Except.error (h.outOfRange digits)
      | some whole => rfl

theorem temperature (tokens : List Token) :
    temperature (tokens.map f) = (temperature tokens).mapError g := by
  refine h.measured (a := celsiusOf) (fun digits scale => ?_) tokens
  unfold celsiusOf
  rw [h.kind, h.number]
  cases temperature? (Exact.Decimal.ofChars digits.text) scale.kind with
  | none => exact congrArg Except.error (h.unexpected scale)
  | some celsius => rfl

theorem expansion (keyword : Token) (operands : List Token) :
    expansion (f keyword) (operands.map f) = (expansion keyword operands).mapError g := by
  unfold Recipe.expansion
  rw [h.kind]
  cases keyword.kind <;> dsimp only
  case mashVolume =>
    rw [mapError_bind, h.amount]
    rfl
  case heat =>
    rw [mapError_bind, h.temperature]
    rfl
  case hold =>
    simp only [mapError_bind, ← List.map_drop, h.temperature, h.expect, h.amount]
    rfl
  case initialise | mashing | sparging | pause => rfl
  all_goals exact congrArg Except.error (h.unexpected keyword)

/-- Statements are the same after the change, and a fault is the changed one. -/
theorem parse (room : Nat) (tokens : List Token) :
    parse room (tokens.map f) = (parse room tokens).mapError g := by
  induction room, tokens using parse.induct with
  | case1 room =>
      rw [List.map_nil, Recipe.parse]
      rfl
  | case2 room keyword rest ih =>
      rw [List.map_cons, Recipe.parse, Recipe.parse, mapError_bind, h.expansion]
      congr 1
      funext expanded
      by_cases hroom : room < expanded.length
      · simp only [if_pos hroom]
        exact congrArg Except.error (h.tooMany keyword)
      · simp only [if_neg hroom]
        rw [h.kind, ← List.map_drop, ih expanded, mapError_bind]
        rfl

end KeepsMeaning

end Brewhouse.Recipe
