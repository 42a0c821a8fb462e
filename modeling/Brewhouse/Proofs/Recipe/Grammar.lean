import Brewhouse.Proofs.Recipe.Amount
import Brewhouse.Proofs.Recipe.Phrase

/-!
The grammar of recipes. A phrase is a keyword with as many operands as the keyword asks for, each of a
kind that may stand in its place. A recipe is read from left to right: it is accepted if it is a sequence
of phrases whose amounts are in range and whose statements a script has room for, and otherwise the fault
is the first one met.
-/

namespace Brewhouse.Recipe

/-! ### Phrases -/

def numberKinds : List TokenKind := [.integer, .decimal]

def volumeKinds : List TokenKind := volumeUnits.map Prod.fst

def scaleKinds : List TokenKind := [.celsius, .fahrenheit]

def timeKinds : List TokenKind := timeUnits.map Prod.fst

/-- The kinds of tokens that may stand at each place behind a keyword; `none` if it is no keyword. -/
def shape? : TokenKind → Option (List (List TokenKind))
  | .initialise | .mashing | .sparging | .pause => some []
  | .mashVolume => some [numberKinds, volumeKinds]
  | .heat => some [numberKinds, scaleKinds]
  | .hold => some [numberKinds, scaleKinds, [.duration], numberKinds, timeKinds]
  | _ => none

/-- The tokens stand where they may stand. -/
def Fits (tokens : List Token) (shape : List (List TokenKind)) : Prop :=
  List.Forall₂ (fun token kinds => token.kind ∈ kinds) tokens shape

structure Phrase where
  keyword : Token
  operands : List Token
  shape : List (List TokenKind)
  shape_eq : shape? keyword.kind = some shape
  fits : Fits operands shape

/-- The amount that a number and a unit stand for, if it is a 32-bit word. -/
def wholeOf? (units : List (TokenKind × ℕ)) (digits unit : Token) : Option UInt32 :=
  (units.lookup unit.kind).bind (wordOf? (Exact.Decimal.ofChars digits.text).value)

/-- The temperature that a number and a scale stand for. -/
def celsiusOf? (digits scale : Token) : Option Celsius :=
  degrees? (Exact.Decimal.ofChars digits.text) scale.kind

namespace Phrase

def tokens (p : Phrase) : List Token :=
  p.keyword :: p.operands

/-- The number of the volume or the time that a phrase has, and what it stands for if it is in range. -/
def amount? (p : Phrase) : Option (Token × Option UInt32) :=
  match p.keyword.kind, p.operands with
  | .mashVolume, [digits, unit] => some (digits, wholeOf? volumeUnits digits unit)
  | .hold, [_, _, _, digits, unit] => some (digits, wholeOf? timeUnits digits unit)
  | _, _ => none

/-- The volume or the time of the phrase is out of range, and this is its number. -/
def OutOfRange (p : Phrase) (digits : Token) : Prop :=
  p.amount? = some (digits, none)

/-- The statements that a phrase stands for. A change of phase waits for the operator. -/
def statements (p : Phrase) : List Statement :=
  match p.keyword.kind, p.operands with
  | .initialise, _ => [.initialise]
  | .mashing, _ => [.mash, .pause]
  | .sparging, _ => [.sparge, .pause]
  | .pause, _ => [.pause]
  | .mashVolume, [digits, unit] => [.mashWater (wholeOf? volumeUnits digits unit)]
  | .heat, [digits, scale] => [.heat (celsiusOf? digits scale)]
  | .hold, [digits, scale, _, digits', unit] =>
    [.hold ((celsiusOf? digits scale).bind fun celsius =>
      (wholeOf? timeUnits digits' unit).map (celsius, ·))]
  | _, _ => []

end Phrase

def spell (phrases : List Phrase) : List Token :=
  phrases.flatMap Phrase.tokens

def meaning (phrases : List Phrase) : List Statement :=
  phrases.flatMap Phrase.statements

theorem spell_append (phrases more : List Phrase) :
    spell (phrases ++ more) = spell phrases ++ spell more :=
  List.flatMap_append

theorem meaning_append (phrases more : List Phrase) :
    meaning (phrases ++ more) = meaning phrases ++ meaning more :=
  List.flatMap_append

theorem spell_cons (p : Phrase) (phrases : List Phrase) :
    spell (p :: phrases) = p.tokens ++ spell phrases :=
  List.flatMap_cons

theorem length_meaning_cons (p : Phrase) (phrases : List Phrase) :
    (meaning (p :: phrases)).length = p.statements.length + (meaning phrases).length :=
  List.length_append

/-! ### Reading from left to right -/

/-- No amount is out of range, and there is room for all statements. -/
def Sound (room : Nat) (phrases : List Phrase) : Prop :=
  (∀ p ∈ phrases, ∀ digits, ¬ p.OutOfRange digits) ∧ (meaning phrases).length ≤ room

/-- A phrase begins with these tokens, and there is more of it. -/
def Unfinished (part : List Token) : Prop :=
  ∃ (p : Phrase) (token : Token) (more : List Token), p.tokens = part ++ token :: more

/-- What comes of a list of tokens that is read from left to right. -/
inductive Reads (room : Nat) : List Token → Except RecipeFault (List Statement) → Prop where
  | accepted {phrases : List Phrase} (h : Sound room phrases) :
      Reads room (spell phrases) (.ok (meaning phrases))
  /-- No phrase goes on with the token. -/
  | unexpectedToken {phrases : List Phrase} {part rest : List Token} {token : Token}
      (h : Sound room phrases) (hpart : Unfinished part)
      (htoken : ∀ p : Phrase, ¬ part ++ [token] <+: p.tokens) :
      Reads room (spell phrases ++ (part ++ token :: rest))
        (.error (.unexpectedToken token.line token.text))
  /-- The tokens stop inside a phrase. -/
  | unexpectedEnd {phrases : List Phrase} {part : List Token} (h : Sound room phrases)
      (hpart : Unfinished part) (hsome : part ≠ []) :
      Reads room (spell phrases ++ part) (.error .unexpectedEnd)
  | valueOutOfRange {phrases : List Phrase} {p : Phrase} {digits : Token} {rest : List Token}
      (h : Sound room phrases) (hp : p.OutOfRange digits) :
      Reads room (spell phrases ++ (p.tokens ++ rest))
        (.error (.valueOutOfRange digits.line digits.text))
  | tooManyStatements {phrases : List Phrase} {p : Phrase} {rest : List Token}
      (h : Sound room phrases) (hp : ∀ digits, ¬ p.OutOfRange digits)
      (hroom : room < (meaning phrases).length + p.statements.length) :
      Reads room (spell phrases ++ (p.tokens ++ rest)) (.error (.tooManyStatements p.keyword.line))

/-! ### Tokens against a shape -/

/-- Looks whether tokens fit a shape, and finds the first fault if they do not. -/
def inspect : List (List TokenKind) → List Token → Except RecipeFault Unit
  | [], _ => .ok ()
  | _ :: _, [] => .error .unexpectedEnd
  | kinds :: shape, token :: tokens =>
    if token.kind ∈ kinds then inspect shape tokens else .error token.unexpected

/-- Tokens fit a shape and there may be more of them, or they fit its beginning up to a token or up to
their end. -/
theorem fits_cases (shape : List (List TokenKind)) (tokens : List Token) :
    (∃ operands rest, tokens = operands ++ rest ∧ Fits operands shape) ∨
    (∃ before kinds after part token rest, shape = before ++ kinds :: after ∧
      tokens = part ++ token :: rest ∧ Fits part before ∧ token.kind ∉ kinds) ∨
    ∃ before kinds after, shape = before ++ kinds :: after ∧ Fits tokens before := by
  induction shape generalizing tokens with
  | nil => exact Or.inl ⟨[], tokens, rfl, .nil⟩
  | cons kinds shape ih =>
      cases tokens with
      | nil => exact Or.inr (Or.inr ⟨[], kinds, shape, rfl, .nil⟩)
      | cons token tokens =>
          by_cases htoken : token.kind ∈ kinds
          · rcases ih tokens with ⟨operands, rest, rfl, hfits⟩ |
              ⟨before, kinds', after, part, token', rest, rfl, rfl, hfits, hmisfit⟩ |
              ⟨before, kinds', after, rfl, hfits⟩
            · exact Or.inl ⟨token :: operands, rest, rfl, .cons htoken hfits⟩
            · exact Or.inr (Or.inl ⟨kinds :: before, kinds', after, token :: part, token', rest, rfl,
                rfl, .cons htoken hfits, hmisfit⟩)
            · exact Or.inr (Or.inr ⟨kinds :: before, kinds', after, rfl, .cons htoken hfits⟩)
          · exact Or.inr (Or.inl ⟨[], kinds, shape, [], token, tokens, rfl, rfl, .nil, htoken⟩)

theorem inspect_append_of_fits {before : List (List TokenKind)} {part : List Token}
    (h : Fits part before) (after : List (List TokenKind)) (rest : List Token) :
    inspect (before ++ after) (part ++ rest) = inspect after rest := by
  induction h with
  | nil => rfl
  | cons htoken _ ih =>
      simp only [List.cons_append, inspect, if_pos htoken]
      exact ih

theorem inspect_of_fits {shape : List (List TokenKind)} {operands : List Token}
    (h : Fits operands shape) (rest : List Token) : inspect shape (operands ++ rest) = .ok () := by
  have hinspect := inspect_append_of_fits h [] rest
  rwa [List.append_nil] at hinspect

theorem inspect_of_misfit {before after : List (List TokenKind)} {kinds : List TokenKind}
    {part rest : List Token} {token : Token} (h : Fits part before) (htoken : token.kind ∉ kinds) :
    inspect (before ++ kinds :: after) (part ++ token :: rest) = .error token.unexpected := by
  rw [inspect_append_of_fits h, inspect, if_neg htoken]

theorem inspect_of_short {before after : List (List TokenKind)} {kinds : List TokenKind}
    {part : List Token} (h : Fits part before) :
    inspect (before ++ kinds :: after) part = .error .unexpectedEnd := by
  have hinspect := inspect_append_of_fits h (kinds :: after) []
  rwa [List.append_nil] at hinspect

theorem fits_of_inspect {shape : List (List TokenKind)} {tokens : List Token}
    (h : inspect shape tokens = .ok ()) : ∃ operands rest, tokens = operands ++ rest ∧
      Fits operands shape := by
  rcases fits_cases shape tokens with hfits |
    ⟨before, kinds, after, part, token, rest, rfl, rfl, hfits, htoken⟩ |
    ⟨before, kinds, after, rfl, hfits⟩
  · exact hfits
  · rw [inspect_of_misfit hfits htoken] at h
    cases h
  · rw [inspect_of_short hfits] at h
    cases h

theorem inspect_append (before after : List (List TokenKind)) (tokens : List Token) :
    inspect (before ++ after) tokens =
      inspect before tokens >>= fun _ => inspect after (tokens.drop before.length) := by
  induction before generalizing tokens with
  | nil => rfl
  | cons kinds before ih =>
      cases tokens with
      | nil => rfl
      | cons token tokens =>
          simp only [List.cons_append, inspect]
          split
          · exact ih tokens
          · rfl

/-! ### What a phrase stands for -/

theorem lookup_eq_none_iff (units : List (TokenKind × ℕ)) (kind : TokenKind) :
    units.lookup kind = none ↔ kind ∉ units.map Prod.fst := by
  rw [List.lookup_eq_none_iff, List.mem_map, not_exists]
  refine forall_congr' fun unit => ?_
  rw [not_and, bne_iff_ne, ne_comm]

theorem temperature?_eq_none_iff (number : Exact.Decimal) (kind : TokenKind) :
    temperature? number kind = none ↔ kind ∉ scaleKinds := by
  cases kind <;> simp [temperature?, scaleKinds]
  split <;> simp

theorem expect_eq (kind : TokenKind) (tokens : List Token) :
    expect kind tokens = inspect [[kind]] tokens := by
  cases tokens with
  | nil => rfl
  | cons token rest =>
      simp only [inspect, List.mem_singleton]
      rfl

/-- A number and the token after it, put together. -/
def measured {α : Type} (f : Token → Token → Except RecipeFault α) (tokens : List Token) :
    Except RecipeFault α := do
  let digits ← number tokens
  let unit ← next (tokens.drop 1)
  f digits unit

variable {α : Type} {f : Token → Token → Except RecipeFault α} {kinds : List TokenKind}

theorem measured_of_fits {digits : Token} (hdigits : digits.kind ∈ numberKinds) (unit : Token)
    (rest : List Token) : measured f (digits :: unit :: rest) = f digits unit := by
  have hnumber : number (digits :: unit :: rest) = .ok digits :=
    if_pos (by simpa [numberKinds] using hdigits)
  rw [measured, hnumber]
  rfl

theorem measured_of_misfit (hf : ∀ digits unit, unit.kind ∉ kinds → f digits unit = .error unit.unexpected)
    {tokens : List Token} {fault : RecipeFault}
    (h : inspect [numberKinds, kinds] tokens = .error fault) : measured f tokens = .error fault := by
  match tokens with
  | [] =>
      cases h
      rfl
  | digits :: rest =>
      by_cases hdigits : digits.kind ∈ numberKinds
      · rw [inspect, if_pos hdigits] at h
        match rest with
        | [] =>
            cases h
            have hnumber : number [digits] = .ok digits :=
              if_pos (by simpa [numberKinds] using hdigits)
            rw [measured, hnumber]
            rfl
        | unit :: rest =>
            rw [measured_of_fits hdigits]
            by_cases hunit : unit.kind ∈ kinds
            · rw [inspect, if_pos hunit] at h
              cases h
            · rw [inspect, if_neg hunit] at h
              cases h
              exact hf digits unit hunit
      · rw [inspect, if_neg hdigits] at h
        cases h
        have hnumber : number (digits :: rest) = .error digits.unexpected :=
          if_neg (by simpa [numberKinds] using hdigits)
        rw [measured, hnumber]
        rfl

def amountOf (factor? : TokenKind → Option Nat) (digits unit : Token) : Except RecipeFault UInt32 :=
  match factor? unit.kind with
  | none => .error unit.unexpected
  | some factor =>
    match wholeAmount? (Exact.Decimal.ofChars digits.text) factor with
    | none => .error (.valueOutOfRange digits.line digits.text)
    | some whole => .ok whole

theorem amount_eq (factor? : TokenKind → Option Nat) (tokens : List Token) :
    amount factor? tokens = measured (amountOf factor?) tokens := rfl

section Units

variable {factor? : TokenKind → Option Nat} {units : List (TokenKind × ℕ)}
  (hunits : ∀ kind, factor? kind = units.lookup kind)

include hunits

theorem amountOf_of_not_mem (digits unit : Token) (hunit : unit.kind ∉ units.map Prod.fst) :
    amountOf factor? digits unit = .error unit.unexpected := by
  rw [amountOf, hunits, (lookup_eq_none_iff units unit.kind).mpr hunit]

theorem amountOf_of_mem (digits unit : Token) (hunit : unit.kind ∈ units.map Prod.fst) :
    amountOf factor? digits unit =
      match wholeOf? units digits unit with
      | none => .error (.valueOutOfRange digits.line digits.text)
      | some whole => .ok whole := by
  rw [amountOf, wholeOf?, hunits]
  cases hsize : units.lookup unit.kind with
  | none => exact absurd hunit ((lookup_eq_none_iff units unit.kind).mp hsize)
  | some size => rw [Option.bind_some, wordOf?_value]

end Units

def celsiusOf (digits scale : Token) : Except RecipeFault Celsius :=
  match temperature? (Exact.Decimal.ofChars digits.text) scale.kind with
  | none => .error scale.unexpected
  | some celsius => .ok celsius

theorem temperature_eq (tokens : List Token) : temperature tokens = measured celsiusOf tokens := rfl

theorem celsiusOf_of_not_mem (digits scale : Token) (hscale : scale.kind ∉ scaleKinds) :
    celsiusOf digits scale = .error scale.unexpected := by
  rw [celsiusOf, (temperature?_eq_none_iff _ _).mpr hscale]

theorem celsiusOf_of_mem (digits scale : Token) (hscale : scale.kind ∈ scaleKinds) :
    ∃ celsius, celsiusOf? digits scale = some celsius ∧ celsiusOf digits scale = .ok celsius := by
  rw [celsiusOf?, degrees?_eq]
  cases hcelsius : temperature? (Exact.Decimal.ofChars digits.text) scale.kind with
  | none => exact absurd hscale ((temperature?_eq_none_iff _ _).mp hcelsius)
  | some celsius => exact ⟨celsius, rfl, by rw [celsiusOf, hcelsius]⟩

theorem temperature_of_fits {operands : List Token}
    (h : inspect [numberKinds, scaleKinds] operands = .ok ()) :
    ∃ celsius, temperature operands = .ok celsius := by
  obtain ⟨pair, rest, rfl, hfits⟩ := fits_of_inspect h
  obtain _ | ⟨hdigits, _ | ⟨hscale, _ | _⟩⟩ := hfits
  obtain ⟨celsius, -, hcelsius⟩ := celsiusOf_of_mem _ _ hscale
  exact ⟨celsius, (measured_of_fits hdigits _ rest).trans hcelsius⟩

/-- A sequence that failed did so in its first part, or went on after it. -/
theorem bind_eq_error {ε β γ : Type} {x : Except ε β} {g : β → Except ε γ} {fault : ε}
    (h : (x >>= g) = .error fault) :
    x = .error fault ∨ ∃ b, x = .ok b ∧ g b = .error fault := by
  cases x with
  | error fault' =>
      cases h
      exact Or.inl rfl
  | ok b => exact Or.inr ⟨b, rfl, h⟩

/-- Operands that do not fit are the first fault, whatever their amounts. -/
theorem expansion_of_misfit {keyword : Token} {operands : List Token}
    {shape : List (List TokenKind)} {fault : RecipeFault} (hshape : shape? keyword.kind = some shape)
    (h : inspect shape operands = .error fault) : expansion keyword operands = .error fault := by
  unfold expansion
  cases hkind : keyword.kind <;> rw [hkind] at hshape <;> cases hshape
  case initialise | mashing | sparging | pause => cases h
  case mashVolume =>
    have hvolume : amount volumeFactor? operands = .error fault :=
      measured_of_misfit (amountOf_of_not_mem volumeFactor?_eq) h
    simp only [hvolume]
    rfl
  case heat =>
    have hcelsius : temperature operands = .error fault := measured_of_misfit celsiusOf_of_not_mem h
    simp only [hcelsius]
    rfl
  case hold =>
    change inspect ([numberKinds, scaleKinds] ++ ([[.duration]] ++ [numberKinds, timeKinds])) _ = _
      at h
    rw [inspect_append] at h
    rcases bind_eq_error h with htemperature | ⟨⟨⟩, htemperature, h⟩
    · have hcelsius : temperature operands = .error fault :=
        measured_of_misfit celsiusOf_of_not_mem htemperature
      rw [hcelsius]
      rfl
    obtain ⟨celsius, hcelsius⟩ := temperature_of_fits htemperature
    rw [hcelsius]
    change (expect .duration (operands.drop 2) >>= _) = _
    rw [inspect_append, ← expect_eq] at h
    rcases bind_eq_error h with hlink | ⟨⟨⟩, hlink, htime⟩
    · rw [show operands.drop 2 = operands.drop [numberKinds, scaleKinds].length from rfl, hlink]
      rfl
    · rw [show operands.drop 2 = operands.drop [numberKinds, scaleKinds].length from rfl, hlink]
      change (amount timeFactor? (operands.drop 3) >>= _) = _
      rw [List.drop_drop] at htime
      have htime' : amount timeFactor? (operands.drop 3) = .error fault :=
        measured_of_misfit (amountOf_of_not_mem timeFactor?_eq) htime
      rw [htime']
      rfl

/-- What comes of a phrase with nothing in the way of it. -/
def Phrase.result (p : Phrase) : Except RecipeFault (List Statement) :=
  match p.amount? with
  | some (digits, none) => .error (.valueOutOfRange digits.line digits.text)
  | _ => .ok p.statements

theorem amount_of_fits {factor? : TokenKind → Option Nat} {units : List (TokenKind × ℕ)}
    (hunits : ∀ kind, factor? kind = units.lookup kind) {digits unit : Token}
    (hdigits : digits.kind ∈ numberKinds) (hunit : unit.kind ∈ units.map Prod.fst)
    (rest : List Token) :
    amount factor? (digits :: unit :: rest) =
      match wholeOf? units digits unit with
      | none => .error (.valueOutOfRange digits.line digits.text)
      | some whole => .ok whole := by
  rw [amount_eq, measured_of_fits hdigits, amountOf_of_mem hunits digits unit hunit]

theorem expansion_phrase (p : Phrase) (rest : List Token) :
    expansion p.keyword (p.operands ++ rest) = p.result := by
  obtain ⟨keyword, operands, shape, hshape, hfits⟩ := p
  unfold expansion Phrase.result Phrase.amount? Phrase.statements
  cases hkind : keyword.kind <;> rw [hkind] at hshape <;> cases hshape
  case initialise | mashing | sparging | pause => rfl
  case mashVolume =>
    match operands, hfits with
    | [digits, unit], .cons hdigits (.cons hunit .nil) =>
        simp only [List.cons_append, List.nil_append,
          amount_of_fits volumeFactor?_eq hdigits hunit]
        cases wholeOf? volumeUnits digits unit <;> rfl
  case heat =>
    match operands, hfits with
    | [digits, scale], .cons hdigits (.cons hscale .nil) =>
        obtain ⟨celsius, hcelsius, hok⟩ := celsiusOf_of_mem digits scale hscale
        simp only [List.cons_append, List.nil_append, temperature_eq, measured_of_fits hdigits, hok,
          hcelsius]
        rfl
  case hold =>
    match operands, hfits with
    | [digits, scale, link, digits', unit],
        .cons hdigits (.cons hscale (.cons hlink (.cons hdigits' (.cons hunit .nil)))) =>
        obtain ⟨celsius, hcelsius, hok⟩ := celsiusOf_of_mem digits scale hscale
        have hexpect : expect .duration (link :: digits' :: unit :: rest) = .ok () :=
          if_pos (List.mem_singleton.mp hlink)
        simp only [List.cons_append, List.nil_append, temperature_eq, measured_of_fits hdigits, hok,
          hcelsius, List.drop_succ_cons, List.drop_zero, hexpect,
          amount_of_fits timeFactor?_eq hdigits' hunit]
        cases wholeOf? timeUnits digits' unit <;> rfl

/-! ### Parsing -/

theorem parse_cons_of_error {keyword : Token} {operands : List Token} {fault : RecipeFault}
    (room : Nat) (h : expansion keyword operands = .error fault) :
    parse room (keyword :: operands) = .error fault := by
  rw [parse, h]
  rfl

theorem Phrase.length_operands (p : Phrase) : operandCount p.keyword.kind = p.operands.length := by
  obtain ⟨keyword, operands, shape, hshape, hfits⟩ := p
  rw [hfits.length_eq]
  cases hkind : keyword.kind <;> rw [hkind] at hshape <;> cases hshape <;> rfl

theorem Phrase.drop_operands (p : Phrase) (rest : List Token) :
    (p.operands ++ rest).drop (operandCount p.keyword.kind) = rest := by
  rw [p.length_operands, List.drop_left]

theorem Phrase.result_of_outOfRange {p : Phrase} {digits : Token} (h : p.OutOfRange digits) :
    p.result = .error (.valueOutOfRange digits.line digits.text) := by
  rw [result, show p.amount? = _ from h]

theorem Phrase.result_of_inRange {p : Phrase} (h : ∀ digits, ¬ p.OutOfRange digits) :
    p.result = .ok p.statements := by
  unfold result
  split
  · next digits hamount => exact absurd hamount (h digits)
  · rfl

theorem parse_phrase_of_outOfRange {p : Phrase} {digits : Token} (h : p.OutOfRange digits)
    (room : Nat) (rest : List Token) :
    parse room (p.tokens ++ rest) = .error (.valueOutOfRange digits.line digits.text) :=
  parse_cons_of_error room ((expansion_phrase p rest).trans (Phrase.result_of_outOfRange h))

theorem parse_phrase {p : Phrase} (h : ∀ digits, ¬ p.OutOfRange digits) (room : Nat)
    (rest : List Token) :
    parse room (p.tokens ++ rest) =
      if room < p.statements.length then .error (.tooManyStatements p.keyword.line)
      else (parse (room - p.statements.length) rest).map (p.statements ++ ·) := by
  rw [Phrase.tokens, List.cons_append, parse, expansion_phrase, Phrase.result_of_inRange h]
  change (do
    if room < p.statements.length then throw (RecipeFault.tooManyStatements p.keyword.line)
    let further ← parse (room - p.statements.length)
      ((p.operands ++ rest).drop (operandCount p.keyword.kind))
    pure (p.statements ++ further)) = _
  rw [p.drop_operands]
  by_cases hroom : room < p.statements.length
  · rw [if_pos hroom, if_pos hroom]
    rfl
  · rw [if_neg hroom, if_neg hroom]
    cases parse (room - p.statements.length) rest <;> rfl

/-- Phrases that are sound are read off, and the rest is read with the room that they leave. -/
theorem parse_spell {room : Nat} {phrases : List Phrase} (h : Sound room phrases)
    (rest : List Token) :
    parse room (spell phrases ++ rest) =
      (parse (room - (meaning phrases).length) rest).map (meaning phrases ++ ·) := by
  induction phrases generalizing room with
  | nil =>
      change parse room rest = (parse (room - 0) rest).map _
      cases parse room rest <;> rfl
  | cons p phrases ih =>
      obtain ⟨hrange, hroom⟩ := h
      obtain ⟨hp, hphrases⟩ := List.forall_mem_cons.mp hrange
      rw [length_meaning_cons] at hroom ⊢
      have hsound : Sound (room - p.statements.length) phrases := ⟨hphrases, by omega⟩
      rw [spell_cons, List.append_assoc, parse_phrase hp, if_neg (by omega), ih hsound, Nat.sub_sub]
      cases parse (room - (p.statements.length + (meaning phrases).length)) rest with
      | error fault => rfl
      | ok further => simp [Except.map, meaning]

/-! ### Beginnings of phrases -/

theorem fits_append_left {part more : List Token} {shape : List (List TokenKind)}
    (h : Fits (part ++ more) shape) :
    ∃ before after, shape = before ++ after ∧ Fits part before ∧ Fits more after := by
  refine ⟨shape.take part.length, shape.drop part.length, (List.take_append_drop ..).symm, ?_, ?_⟩
  · have hpart := List.forall₂_take part.length h
    rwa [List.take_left] at hpart
  · have hmore := List.forall₂_drop part.length h
    rwa [List.drop_left] at hmore

/-- For each place behind a keyword there is a kind of token that may stand there. -/
theorem ne_nil_of_mem_shape {kind : TokenKind} {shape : List (List TokenKind)}
    (hshape : shape? kind = some shape) : ∀ kinds ∈ shape, kinds ≠ [] := by
  cases kind <;> cases hshape <;> decide

theorem exists_fits {shape : List (List TokenKind)} (hsome : ∀ kinds ∈ shape, kinds ≠ []) :
    ∃ tokens, Fits tokens shape := by
  induction shape with
  | nil => exact ⟨[], .nil⟩
  | cons kinds shape ih =>
      obtain ⟨hkinds, hshape⟩ := List.forall_mem_cons.mp hsome
      obtain ⟨kind, hkind⟩ := List.exists_mem_of_ne_nil kinds hkinds
      obtain ⟨tokens, htokens⟩ := ih hshape
      exact ⟨⟨kind, [], 0⟩ :: tokens, .cons hkind htokens⟩

/-- Operands that fit the beginning of a shape are the beginning of a phrase. -/
theorem exists_phrase {keyword : Token} {part : List Token} {before after : List (List TokenKind)}
    (hshape : shape? keyword.kind = some (before ++ after)) (hpart : Fits part before) :
    ∃ (p : Phrase) (more : List Token), p.tokens = keyword :: part ++ more ∧ Fits more after := by
  obtain ⟨more, hmore⟩ := exists_fits (List.forall_mem_append.mp (ne_nil_of_mem_shape hshape)).2
  exact ⟨⟨keyword, part ++ more, before ++ after, hshape, List.rel_append hpart hmore⟩, more, rfl,
    hmore⟩

theorem unfinished_iff {keyword : Token} {part : List Token} :
    Unfinished (keyword :: part) ↔ ∃ before kinds after,
      shape? keyword.kind = some (before ++ kinds :: after) ∧ Fits part before := by
  constructor
  · rintro ⟨⟨keyword', operands, shape, hshape, hfits⟩, token, more, htokens⟩
    obtain ⟨rfl, rfl⟩ := List.cons.inj htokens
    obtain ⟨before, after, rfl, hpart, hmore⟩ := fits_append_left hfits
    cases hmore with
    | cons htoken hmore => exact ⟨before, _, _, hshape, hpart⟩
  · rintro ⟨before, kinds, after, hshape, hpart⟩
    obtain ⟨p, more, htokens, hmore⟩ := exists_phrase hshape hpart
    cases hmore with
    | cons htoken hmore => exact ⟨p, _, _, htokens⟩

/-- A phrase goes on with a token if and only if it may stand in its place. -/
theorem continues_iff {keyword token : Token} {part : List Token}
    {before after : List (List TokenKind)} {kinds : List TokenKind}
    (hshape : shape? keyword.kind = some (before ++ kinds :: after)) (hpart : Fits part before) :
    (∃ p : Phrase, keyword :: part ++ [token] <+: p.tokens) ↔ token.kind ∈ kinds := by
  constructor
  · rintro ⟨⟨keyword', operands, shape, hshape', hfits⟩, more, htokens⟩
    by_contra hkind
    obtain ⟨rfl, hoperands⟩ := List.cons.inj htokens
    obtain rfl := Option.some.inj (hshape.symm.trans hshape')
    have hinspect := inspect_of_fits hfits []
    have hsplit : operands ++ [] = part ++ token :: more := by
      rw [List.append_nil]
      exact hoperands.symm.trans (List.append_assoc part [token] more)
    rw [hsplit, inspect_of_misfit hpart hkind] at hinspect
    cases hinspect
  · intro hkind
    have hlonger : Fits (part ++ [token]) (before ++ [kinds]) :=
      List.rel_append hpart (.cons hkind .nil)
    rw [← List.singleton_append, ← List.append_assoc] at hshape
    obtain ⟨p, more, htokens, -⟩ := exists_phrase hshape hlonger
    exact ⟨p, more, htokens.symm⟩

/-- A phrase begins with a token if and only if it is a keyword. -/
theorem begins_iff {token : Token} :
    (∃ p : Phrase, [token] <+: p.tokens) ↔ ∃ shape, shape? token.kind = some shape := by
  constructor
  · rintro ⟨p, more, htokens⟩
    obtain ⟨rfl, -⟩ := List.cons.inj htokens
    exact ⟨p.shape, p.shape_eq⟩
  · rintro ⟨shape, hshape⟩
    have hnone : Fits [] [] := .nil
    rw [← List.nil_append shape] at hshape
    obtain ⟨p, more, htokens, -⟩ := exists_phrase hshape hnone
    exact ⟨p, more, htokens.symm⟩

theorem expansion_of_no_keyword {token : Token} (h : shape? token.kind = none)
    (operands : List Token) : expansion token operands = .error token.unexpected := by
  unfold expansion
  cases hkind : token.kind <;> rw [hkind] at h <;> first | rfl | cases h

/-! ### The reading of a list of tokens -/

theorem Reads.parse_eq {room : Nat} {tokens : List Token}
    {result : Except RecipeFault (List Statement)} (h : Reads room tokens result) :
    parse room tokens = result := by
  cases h with
  | @accepted phrases h =>
      have hparse := parse_spell h []
      rw [List.append_nil, parse] at hparse
      rw [hparse]
      change Except.ok (meaning phrases ++ []) = _
      rw [List.append_nil]
  | @unexpectedToken phrases part rest token h hpart htoken =>
      rw [parse_spell h]
      cases part with
      | nil =>
          have hshape : shape? token.kind = none := by
            by_contra hkeyword
            obtain ⟨p, hp⟩ := begins_iff.mpr (Option.ne_none_iff_exists'.mp hkeyword)
            exact htoken p hp
          rw [List.nil_append, parse_cons_of_error _ (expansion_of_no_keyword hshape rest)]
          rfl
      | cons keyword part =>
          obtain ⟨before, kinds, after, hshape, hfits⟩ := unfinished_iff.mp hpart
          have hkind : token.kind ∉ kinds := fun hkind => by
            obtain ⟨p, hp⟩ := (continues_iff hshape hfits).mpr hkind
            exact htoken p hp
          rw [List.cons_append, parse_cons_of_error _
            (expansion_of_misfit hshape (inspect_of_misfit hfits hkind))]
          rfl
  | @unexpectedEnd phrases part h hpart hsome =>
      rw [parse_spell h]
      cases part with
      | nil => exact absurd rfl hsome
      | cons keyword part =>
          obtain ⟨before, kinds, after, hshape, hfits⟩ := unfinished_iff.mp hpart
          rw [parse_cons_of_error _ (expansion_of_misfit hshape (inspect_of_short hfits))]
          rfl
  | valueOutOfRange h hp =>
      rw [parse_spell h, parse_phrase_of_outOfRange hp]
      rfl
  | tooManyStatements h hp hroom =>
      have hfits := h.2
      rw [parse_spell h, parse_phrase hp, if_pos (by omega)]
      rfl

/-- A phrase in front, with room for its statements. -/
theorem Reads.cons {room : Nat} {p : Phrase} {tokens : List Token}
    {result : Except RecipeFault (List Statement)} (hp : ∀ digits, ¬ p.OutOfRange digits)
    (hroom : p.statements.length ≤ room) (h : Reads (room - p.statements.length) tokens result) :
    Reads room (p.tokens ++ tokens) (result.map (p.statements ++ ·)) := by
  have hsound : ∀ {phrases}, Sound (room - p.statements.length) phrases →
      Sound room (p :: phrases) := by
    rintro phrases ⟨hrange, hfits⟩
    refine ⟨List.forall_mem_cons.mpr ⟨hp, hrange⟩, ?_⟩
    rw [length_meaning_cons]
    omega
  cases h with
  | accepted h => exact .accepted (hsound h)
  | unexpectedToken h hpart htoken =>
      rw [← List.append_assoc]
      exact .unexpectedToken (hsound h) hpart htoken
  | unexpectedEnd h hpart hsome =>
      rw [← List.append_assoc]
      exact .unexpectedEnd (hsound h) hpart hsome
  | valueOutOfRange h hp =>
      rw [← List.append_assoc]
      exact .valueOutOfRange (hsound h) hp
  | tooManyStatements h hp' hover =>
      rw [← List.append_assoc]
      refine .tooManyStatements (hsound h) hp' ?_
      rw [length_meaning_cons]
      omega

theorem sound_nil (room : Nat) : Sound room [] :=
  ⟨List.forall_mem_nil _, Nat.zero_le _⟩

theorem unfinished_nil : Unfinished [] :=
  ⟨⟨⟨.pause, [], 1⟩, [], [], rfl, .nil⟩, ⟨.pause, [], 1⟩, [], rfl⟩

theorem reads_phrase {room : Nat} (p : Phrase) (rest : List Token)
    (hrest : ∀ expanded : List Statement,
      Reads (room - expanded.length) rest (parse (room - expanded.length) rest)) :
    Reads room (p.tokens ++ rest) (parse room (p.tokens ++ rest)) := by
  by_cases hp : ∃ digits, p.OutOfRange digits
  · obtain ⟨digits, hp⟩ := hp
    rw [parse_phrase_of_outOfRange hp]
    show Reads room (spell [] ++ (p.tokens ++ rest)) _
    exact .valueOutOfRange (sound_nil room) hp
  · have hp := not_exists.mp hp
    rw [parse_phrase hp]
    split
    · next hroom =>
      show Reads room (spell [] ++ (p.tokens ++ rest)) _
      exact .tooManyStatements (sound_nil room) hp (by simpa [meaning] using hroom)
    · next hroom => exact (hrest p.statements).cons hp (Nat.le_of_not_lt hroom)

theorem reads_parse (room : Nat) (tokens : List Token) : Reads room tokens (parse room tokens) := by
  induction room, tokens using parse.induct with
  | case1 room =>
      rw [parse]
      exact .accepted (sound_nil room)
  | case2 room keyword rest ih =>
      cases hshape : shape? keyword.kind with
      | none =>
          rw [parse_cons_of_error _ (expansion_of_no_keyword hshape rest)]
          show Reads room (spell [] ++ ([] ++ keyword :: rest)) _
          refine .unexpectedToken (sound_nil room) unfinished_nil fun p hp => ?_
          obtain ⟨shape, hkeyword⟩ := begins_iff.mp ⟨p, hp⟩
          rw [hshape] at hkeyword
          cases hkeyword
      | some shape =>
          rcases fits_cases shape rest with ⟨operands, rest, rfl, hfits⟩ |
            ⟨before, kinds, after, part, token, rest, rfl, rfl, hfits, hkind⟩ |
            ⟨before, kinds, after, rfl, hfits⟩
          · exact reads_phrase ⟨keyword, operands, shape, hshape, hfits⟩ rest fun expanded => by
              have hfurther := ih expanded
              rwa [Phrase.drop_operands ⟨keyword, operands, shape, hshape, hfits⟩] at hfurther
          · rw [parse_cons_of_error _ (expansion_of_misfit hshape (inspect_of_misfit hfits hkind))]
            show Reads room (spell [] ++ (keyword :: part ++ token :: rest)) _
            refine .unexpectedToken (sound_nil room)
              (unfinished_iff.mpr ⟨before, kinds, after, hshape, hfits⟩) fun p hp => ?_
            exact hkind ((continues_iff hshape hfits).mp ⟨p, hp⟩)
          · rw [parse_cons_of_error _ (expansion_of_misfit hshape (inspect_of_short hfits))]
            show Reads room (spell [] ++ keyword :: rest) _
            exact .unexpectedEnd (sound_nil room)
              (unfinished_iff.mpr ⟨before, kinds, after, hshape, hfits⟩) (List.cons_ne_nil _ _)

theorem faithful_wholeOf? {units : List (TokenKind × ℕ)} (hunits : units ∈ [volumeUnits, timeUnits])
    {digits unit : Token} {size : ℕ} (hsize : units.lookup unit.kind = some size) {v : Numeral}
    (hv : v.text = digits.text) : v.Faithful size (wholeOf? units digits unit) := by
  obtain ⟨hpos, hle⟩ := lookup_bounds hunits hsize
  rw [wholeOf?, hsize, Option.bind_some, wordOf?_value, ← hv]
  exact v.faithful_wholeAmount? hpos hle

/-- A list of tokens is parsed to a result if and only if that is what comes of reading it from left to
right: the statements of a sequence of phrases whose amounts are in range and which has no more
statements than a script has room for, or else the first fault that is met. The amounts are in range, and
are what they are, as faithfully as can be asked for of numerals with their exact values. -/
theorem parse_eq_iff_reads (tokens : List Token) (result : Except RecipeFault (List Statement)) :
    (parse Script.capacity tokens = result ↔ Reads Script.capacity tokens result) ∧
      ∀ units ∈ [volumeUnits, timeUnits], ∀ (digits unit : Token) (size : ℕ),
        units.lookup unit.kind = some size → ∀ v : Numeral, v.text = digits.text →
          v.Faithful size (wholeOf? units digits unit) := by
  refine ⟨⟨?_, Reads.parse_eq⟩, fun units hunits digits unit size hsize v hv =>
    faithful_wholeOf? hunits hsize hv⟩
  rintro rfl
  exact reads_parse Script.capacity tokens

/-- Two and a half litres and an hour and a half at 152 °F are put into millilitres, degrees Celsius and
milliseconds; one millilitre more than the largest word is out of range. -/
theorem parse_eq_iff_reads_of_mash :
    let water : List Token := [⟨.mashVolume, "volume".toList, 1⟩, ⟨.decimal, "2.5".toList, 1⟩,
      ⟨.litres, "l".toList, 1⟩]
    let hold : List Token := [⟨.mashing, "mash".toList, 2⟩, ⟨.hold, "hold".toList, 3⟩,
      ⟨.integer, "152".toList, 3⟩, ⟨.fahrenheit, "F".toList, 3⟩, ⟨.duration, "for".toList, 3⟩,
      ⟨.decimal, "1.5".toList, 3⟩, ⟨.hours, "h".toList, 3⟩]
    let flood : List Token := [⟨.pause, "wait".toList, 1⟩, ⟨.mashVolume, "volume".toList, 2⟩,
      ⟨.integer, "4294967296".toList, 2⟩, ⟨.millilitres, "ml".toList, 2⟩, ⟨.duration, "for".toList, 2⟩]
    Reads Script.capacity (water ++ hold) (.ok [.mashWater (some 2500), .mash, .pause,
        .hold (some (Float32.ofBits 0x42855555, 5400000))]) ∧
      Reads Script.capacity flood (.error (.valueOutOfRange 2 "4294967296".toList)) ∧
      ∃ v : Numeral, v.text = "2.5".toList ∧ v.value = 5 / 2 ∧ v.Faithful 1000 (some 2500) := by
  intro water hold flood
  let v : Numeral := ⟨[], ['2'], some ['5'], by decide, by decide, List.forall_mem_singleton.mpr rfl,
    List.forall_mem_singleton.mpr rfl⟩
  have htext : v.text = "2.5".toList := by decide
  have hvalue : v.value = 5 / 2 := by
    have hmagnitude : v.magnitude = (2 : ℕ) + (5 : ℕ) / 10 ^ 1 := rfl
    rw [Numeral.value, if_neg (List.cons_ne_nil _ _).symm, hmagnitude]
    norm_num
  have hword : wholeOf? volumeUnits ⟨.decimal, "2.5".toList, 1⟩ ⟨.litres, "l".toList, 1⟩ = some 2500 := by
    decide +kernel
  have hfaithful := (parse_eq_iff_reads water (parse Script.capacity water)).2 volumeUnits
    List.mem_cons_self ⟨.decimal, "2.5".toList, 1⟩ ⟨.litres, "l".toList, 1⟩ 1000 rfl v htext
  rw [hword] at hfaithful
  have hmash : parse Script.capacity (water ++ hold) = .ok [.mashWater (some 2500), .mash, .pause,
      .hold (some (Float32.ofBits 0x42855555, 5400000))] := by
    decide +kernel
  have hflood : parse Script.capacity flood = .error (.valueOutOfRange 2 "4294967296".toList) := by
    decide +kernel
  exact ⟨(parse_eq_iff_reads _ _).1.mp hmash, (parse_eq_iff_reads _ _).1.mp hflood, v, htext, hvalue,
    hfaithful⟩

end Brewhouse.Recipe
