import Brewhouse.Proofs.Recipe.Grammar
import Brewhouse.Proofs.Recipe.Tiling
import Brewhouse.Recipe.Compile
import Mathlib.Data.List.Induction

/-!
Recipes put one below the other. The phrases of the upper recipe are followed by those of the lower one,
and nothing at the seam becomes another token. The statements are those of the upper recipe and then those
of the lower one, unless they are more than a script has room for; then the fault is on the line of the
keyword with which they are too many.
-/

namespace Brewhouse.Recipe

/-! ### Phrases further down -/

theorem Fits.lower {part : List Token} {shape : List (List TokenKind)} (h : Fits part shape)
    (lines : Nat) : Fits (part.map (Token.lower lines)) shape :=
  List.forall₂_map_left_iff.mpr h

def Phrase.lower (lines : Nat) (p : Phrase) : Phrase :=
  ⟨p.keyword.lower lines, p.operands.map (Token.lower lines), p.shape, p.shape_eq, p.fits.lower lines⟩

/-- What a phrase stands for does not depend on its lines. -/
theorem Phrase.statements_lower (lines : Nat) (p : Phrase) :
    (p.lower lines).statements = p.statements := by
  obtain ⟨keyword, operands, shape, hshape, hfits⟩ := p
  unfold Phrase.statements Phrase.lower Token.lower
  dsimp only
  cases hkind : keyword.kind <;> rw [hkind] at hshape <;> cases hshape
  case mashVolume | heat =>
    obtain _ | ⟨_, _ | ⟨_, _ | _⟩⟩ := hfits
    rfl
  case hold =>
    obtain _ | ⟨_, _ | ⟨_, _ | ⟨_, _ | ⟨_, _ | ⟨_, _ | _⟩⟩⟩⟩⟩ := hfits
    rfl

theorem Phrase.amount?_lower (lines : Nat) (p : Phrase) :
    (p.lower lines).amount? = p.amount?.map fun amount => (amount.1.lower lines, amount.2) := by
  obtain ⟨keyword, operands, shape, hshape, hfits⟩ := p
  unfold Phrase.amount? Phrase.lower Token.lower
  dsimp only
  cases hkind : keyword.kind <;> rw [hkind] at hshape <;> cases hshape
  case initialise | mashing | sparging | pause | heat => rfl
  case mashVolume =>
    obtain _ | ⟨_, _ | ⟨_, _ | _⟩⟩ := hfits
    rfl
  case hold =>
    obtain _ | ⟨_, _ | ⟨_, _ | ⟨_, _ | ⟨_, _ | ⟨_, _ | _⟩⟩⟩⟩⟩ := hfits
    rfl

theorem Phrase.not_outOfRange_lower {p : Phrase} (h : ∀ digits, ¬ p.OutOfRange digits) (lines : Nat)
    (digits : Token) : ¬ (p.lower lines).OutOfRange digits := by
  intro hout
  rw [OutOfRange, Phrase.amount?_lower] at hout
  obtain ⟨⟨digits', whole?⟩, hamount, hlower⟩ := Option.map_eq_some_iff.mp hout
  obtain ⟨-, rfl⟩ := Prod.mk.inj hlower
  exact h digits' hamount

theorem spell_lower (lines : Nat) (phrases : List Phrase) :
    spell (phrases.map (Phrase.lower lines)) = (spell phrases).map (Token.lower lines) := by
  rw [spell, spell, List.flatMap_map, List.map_flatMap]
  rfl

theorem meaning_lower (lines : Nat) (phrases : List Phrase) :
    meaning (phrases.map (Phrase.lower lines)) = meaning phrases := by
  rw [meaning, meaning, List.flatMap_map]
  simp only [Phrase.statements_lower]

/-! ### Where the statements become too many -/

/-- With the phrase, the statements are more than `room`; with those before it they are not. -/
def Overflows (room : Nat) (before : List Phrase) (p : Phrase) : Prop :=
  (meaning before).length ≤ room ∧ room < (meaning before).length + p.statements.length

theorem exists_overflows {room : Nat} {phrases : List Phrase} (h : room < (meaning phrases).length) :
    ∃ before p after, phrases = before ++ p :: after ∧ Overflows room before p := by
  induction phrases using List.reverseRecOn with
  | nil => exact absurd h (Nat.not_lt_zero room)
  | append_singleton phrases p ih =>
      by_cases hbefore : room < (meaning phrases).length
      · obtain ⟨before, q, after, rfl, hover⟩ := ih hbefore
        refine ⟨before, q, after ++ [p], ?_, hover⟩
        rw [List.append_assoc, List.cons_append]
      · refine ⟨phrases, p, [], rfl, Nat.le_of_not_lt hbefore, ?_⟩
        have hsingle : meaning [p] = p.statements := List.append_nil p.statements
        rwa [meaning_append, List.length_append, hsingle] at h

/-! ### Recipes as phrases -/

theorem compile_of_tokens {source : String} {tokens : List Token}
    (h : Recipe.tokens source = .ok tokens) :
    compile source = (parse Script.capacity tokens).map Recipe.mk := by
  rw [compile, h]
  show (parse Script.capacity tokens >>= fun statements => pure (Recipe.mk statements)) = _
  cases parse Script.capacity tokens <;> rfl

/-- A recipe that compiles is a sequence of phrases, and its statements are theirs. -/
theorem exists_phrases {source : String} {r : Recipe} (h : compile source = .ok r) :
    ∃ phrases, tokens source = .ok (spell phrases) ∧ Sound Script.capacity phrases ∧
      r.statements = meaning phrases := by
  obtain ⟨tokens, htokens, h⟩ := bind_eq_ok h
  obtain ⟨statements, hparse, h⟩ := bind_eq_ok h
  cases h
  have hreads := reads_parse Script.capacity tokens
  rw [hparse] at hreads
  cases hreads with
  | @accepted phrases hsound => exact ⟨phrases, htokens, hsound, rfl⟩

theorem compile_of_sound {source : String} {phrases : List Phrase}
    (htokens : tokens source = .ok (spell phrases)) (hsound : Sound Script.capacity phrases) :
    compile source = .ok ⟨meaning phrases⟩ := by
  rw [compile_of_tokens htokens, (Reads.accepted hsound).parse_eq]
  rfl

theorem compile_of_overflows {source : String} {before after : List Phrase} {p : Phrase}
    (htokens : tokens source = .ok (spell (before ++ p :: after)))
    (hrange : ∀ q ∈ before ++ p :: after, ∀ digits, ¬ q.OutOfRange digits)
    (hover : Overflows Script.capacity before p) :
    compile source = .error (.tooManyStatements p.keyword.line) := by
  obtain ⟨hbefore, hafter⟩ := List.forall_mem_append.mp hrange
  have hp := (List.forall_mem_cons.mp hafter).1
  have hreads : Reads Script.capacity (spell before ++ (p.tokens ++ spell after))
      (.error (.tooManyStatements p.keyword.line)) := .tooManyStatements ⟨hbefore, hover.1⟩ hp hover.2
  have hspell : spell (before ++ p :: after) = spell before ++ (p.tokens ++ spell after) :=
    spell_append before (p :: after)
  rw [compile_of_tokens htokens, hspell, hreads.parse_eq]
  rfl

/-! ### The seam -/

def joined (upper lower : String) : String :=
  upper ++ "\n" ++ lower

theorem tokens_joined {upper lower : String} {tokens₁ tokens₂ : List Token}
    (h₁ : tokens upper = .ok tokens₁) (h₂ : tokens lower = .ok tokens₂) :
    tokens (joined upper lower) =
      .ok (tokens₁ ++ tokens₂.map (Token.lower (upper.toList.count '\n' + 1))) := by
  have hjoined : (joined upper lower).toList = upper.toList ++ '\n' :: lower.toList := by
    simp [joined]
  rw [tokens, hjoined]
  exact scan_append_line h₁ h₂

/-- Of two recipes one below the other, the tokens are those of the upper one and then those of the lower
one further down. The statements are those of both, if a script has room for them; otherwise the fault is
on the line of the keyword with which they are too many. -/
theorem compile_joined {upper lower : String} {r₁ r₂ : Recipe} (h₁ : compile upper = .ok r₁)
    (h₂ : compile lower = .ok r₂) :
    (∃ tokens₁ tokens₂, tokens upper = .ok tokens₁ ∧ tokens lower = .ok tokens₂ ∧
      tokens (joined upper lower) =
        .ok (tokens₁ ++ tokens₂.map (Token.lower (upper.toList.count '\n' + 1)))) ∧
    (r₁.statements.length + r₂.statements.length ≤ Script.capacity →
      compile (joined upper lower) = .ok ⟨r₁.statements ++ r₂.statements⟩) ∧
    (Script.capacity < r₁.statements.length + r₂.statements.length →
      ∃ before p after, tokens (joined upper lower) = .ok (spell (before ++ p :: after)) ∧
        meaning (before ++ p :: after) = r₁.statements ++ r₂.statements ∧
        Overflows Script.capacity before p ∧
        StandsBehind (joined upper lower).toList (spell before) p.keyword ∧
        compile (joined upper lower) = .error (.tooManyStatements p.keyword.line)) := by
  obtain ⟨phrases₁, htokens₁, hsound₁, hr₁⟩ := exists_phrases h₁
  obtain ⟨phrases₂, htokens₂, hsound₂, hr₂⟩ := exists_phrases h₂
  have htokens := tokens_joined htokens₁ htokens₂
  refine ⟨⟨_, _, htokens₁, htokens₂, htokens⟩, ?_⟩
  rw [← spell_lower, ← spell_append] at htokens
  have hmeaning : meaning (phrases₁ ++ phrases₂.map
      (Phrase.lower (upper.toList.count '\n' + 1))) = r₁.statements ++ r₂.statements := by
    rw [meaning_append, meaning_lower, hr₁, hr₂]
  have hrange : ∀ p ∈ phrases₁ ++ phrases₂.map (Phrase.lower (upper.toList.count '\n' + 1)),
      ∀ digits, ¬ p.OutOfRange digits := by
    refine List.forall_mem_append.mpr ⟨hsound₁.1, List.forall_mem_map.mpr fun p hp => ?_⟩
    exact Phrase.not_outOfRange_lower (hsound₂.1 p hp) _
  rw [← List.length_append, ← hmeaning]
  generalize phrases₁ ++ phrases₂.map (Phrase.lower (upper.toList.count '\n' + 1)) = phrases at *
  constructor
  · intro hroom
    exact compile_of_sound htokens ⟨hrange, hroom⟩
  · intro hroom
    obtain ⟨before, p, after, rfl, hover⟩ := exists_overflows hroom
    refine ⟨before, p, after, htokens, rfl, hover, ?_, compile_of_overflows htokens hrange hover⟩
    rw [spell_append] at htokens
    exact standsBehind_of_scan htokens

/-- A keyword on the first line that is a phrase on its own. -/
def Phrase.bare (kind : TokenKind) (text : List Char) (hshape : shape? kind = some []) : Phrase :=
  ⟨⟨kind, text, 1⟩, [], [], hshape, .nil⟩

theorem Phrase.length_statements_le (p : Phrase) : p.statements.length ≤ 2 := by
  unfold statements
  split <;> simp

theorem compile_bare (source : String) (kind : TokenKind) (hshape : shape? kind = some [])
    (hstart : Starts source.toList)
    (hfound : lexeme? source.toList = some (kind, source.toList.length)) :
    compile source = .ok ⟨(Phrase.bare kind source.toList hshape).statements⟩ := by
  have hend : ScansTo 1 (source.toList.drop source.toList.length) [] 1 [] := by
    rw [List.drop_length]
    exact .stop
  have hread := tokens_of_scansTo (.token hstart hfound hend)
  rw [List.take_length] at hread
  have hrange : ∀ digits, ¬ (Phrase.bare kind source.toList hshape).OutOfRange digits := by
    intro digits hout
    unfold Phrase.OutOfRange Phrase.amount? Phrase.bare at hout
    cases kind <;> cases hout
  have htokens : tokens source = .ok (spell [Phrase.bare kind source.toList hshape]) := hread
  have hlength := (Phrase.bare kind source.toList hshape).length_statements_le
  have hsingle : meaning [Phrase.bare kind source.toList hshape] =
      (Phrase.bare kind source.toList hshape).statements := List.append_nil _
  rw [← hsingle] at hlength ⊢
  exact compile_of_sound htokens
    ⟨List.forall_mem_singleton.mpr hrange, hlength.trans (by decide)⟩

theorem compile_joined_of_mash_and_wait :
    compile "mash" = .ok ⟨[.mash, .pause]⟩ ∧ compile "wait" = .ok ⟨[.pause]⟩ ∧
      compile (joined "mash" "wait") = .ok ⟨[.mash, .pause, .pause]⟩ := by
  have hmash : compile "mash" = .ok ⟨[.mash, .pause]⟩ :=
    compile_bare "mash" .mashing rfl ⟨'m', _, rfl, rfl⟩ (by decide)
  have hwait : compile "wait" = .ok ⟨[.pause]⟩ :=
    compile_bare "wait" .pause rfl ⟨'w', _, rfl, rfl⟩ (by decide)
  exact ⟨hmash, hwait, (compile_joined hmash hwait).2.1 (by decide)⟩

end Brewhouse.Recipe
