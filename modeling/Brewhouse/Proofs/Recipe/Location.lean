import Brewhouse.Proofs.Recipe.Joined
import Mathlib.Data.List.DropRight

/-!
Where the faults of a recipe point. Either the tokens and the blanks around them make up the whole text, or
they do up to where no token begins, and then the fault quotes the rest of that line. Any other fault names
the line of a token, and what it quotes is the text of this token.
-/

namespace Brewhouse.Recipe

/-! ### The rest of a line -/

/-- The text is the rest of the line that the source begins with, without the blanks at its end. -/
structure IsRestOfLine (source text : List Char) : Prop where
  begins : ∃ gap below, source = text ++ (gap ++ below) ∧ Blank gap ∧ '\n' ∉ text ++ gap ∧
    (below = [] ∨ ∃ rest, below = '\n' :: rest)
  trimmed : ∀ c ∈ text.getLast?, Text.isBlank c = false

theorem isRestOfLine_restOfLine (source : List Char) : IsRestOfLine source (restOfLine source) := by
  have hrow : restOfLine source ++ (source.takeWhile (· != '\n')).rtakeWhile Text.isBlank =
      source.takeWhile (· != '\n') := List.rdropWhile_append_rtakeWhile
  refine ⟨⟨(source.takeWhile (· != '\n')).rtakeWhile Text.isBlank,
    source.dropWhile (· != '\n'), ?_, ?_, ?_, ?_⟩, ?_⟩
  · rw [← List.append_assoc, hrow, List.takeWhile_append_dropWhile]
  · exact fun c hc => List.mem_rtakeWhile_imp hc
  · rw [hrow]
    intro hmem
    exact absurd (List.mem_takeWhile_imp hmem) (by decide)
  · have hhead := List.head?_dropWhile_not (· != '\n') source
    cases hbelow : source.dropWhile (· != '\n') with
    | nil => exact Or.inl rfl
    | cons c rest =>
        rw [hbelow] at hhead
        exact Or.inr ⟨rest, congrArg (· :: rest) (bne_eq_false_iff_eq.mp hhead)⟩
  · intro c hc
    have hsome : restOfLine source ≠ [] := by
      rintro hnone
      rw [hnone] at hc
      cases hc
    rw [List.getLast?_eq_some_getLast hsome] at hc
    cases hc
    rw [← Bool.not_eq_true]
    exact List.rdropWhile_last_not _ _ hsome

theorem restOfLine_ne_nil {source : List Char} (h : Starts source) : restOfLine source ≠ [] := by
  obtain ⟨c, rest, rfl, hc⟩ := h
  have hbreak : c ≠ '\n' := by
    rintro rfl
    cases hc
  intro hnone
  have hrow : (c :: rest).takeWhile (· != '\n') = c :: rest.takeWhile (· != '\n') :=
    List.takeWhile_cons_of_pos (bne_iff_ne.mpr hbreak)
  have hblank := List.rdropWhile_eq_nil_iff.mp hnone c (hrow ▸ List.mem_cons_self)
  rw [hblank] at hc
  cases hc

/-! ### Tokens or where they end -/

/-- The tokens of a text make it up; or they make up the text above a place where no token begins, and
the fault names the line of this place and quotes the rest of it. -/
theorem tokens_cases (source : String) :
    (∃ ts, tokens source = .ok ts ∧ Tiles 1 source.toList ts) ∨
    ∃ above rest ts text, source.toList = above ++ rest ∧ Tiles 1 above ts ∧
      ScansTo 1 source.toList ts (1 + above.count '\n') rest ∧
      Starts rest ∧ lexeme? rest = none ∧
      tokens source = .error (.unexpectedText (1 + above.count '\n') text) ∧
      text ≠ [] ∧ IsRestOfLine rest text := by
  obtain ⟨ts, line', rest, hread, hend⟩ := ScansTo.exists_scansTo 1 source.toList
  obtain ⟨above, hsource, rfl, htiles⟩ := hread.tiles
  rcases hend with rfl | ⟨hstart, hstuck⟩
  · rw [List.append_nil] at hsource
    exact Or.inl ⟨ts, tokens_of_scansTo hread, hsource ▸ htiles⟩
  · refine Or.inr ⟨above, rest, ts, restOfLine rest, hsource, htiles, hread, hstart, hstuck, ?_,
      restOfLine_ne_nil hstart, isRestOfLine_restOfLine rest⟩
    rw [tokens, hread.scan_eq, scan_starts hstart, hstuck]
    rfl

theorem exists_line_of_tokens {source : String} {fault : RecipeFault}
    (h : tokens source = .error fault) : ∃ line text, fault = .unexpectedText line text ∧
      1 ≤ line ∧ line ≤ 1 + source.toList.count '\n' := by
  rcases tokens_cases source with ⟨ts, hok, -⟩ | ⟨above, rest, ts, text, hsource, -, -, -, -, herror, -⟩
  · rw [hok] at h
    cases h
  · rw [herror] at h
    cases h
    refine ⟨_, text, rfl, ?_⟩
    rw [hsource, List.count_append]
    omega

/-! ### Faults and the tokens they are about -/

def RecipeFault.line? : RecipeFault → Option Nat
  | .unexpectedText line _ | .unexpectedToken line _ | .valueOutOfRange line _
  | .tooManyStatements line => some line
  | .unexpectedEnd | .notTransmittable _ _ | .missingPhase => none

/-- The text of a token that a fault quotes. -/
def RecipeFault.quoted? : RecipeFault → Option (List Char)
  | .unexpectedToken _ text | .valueOutOfRange _ text => some text
  | .unexpectedText _ _ | .tooManyStatements _ | .unexpectedEnd | .notTransmittable _ _
  | .missingPhase => none

theorem Phrase.mem_tokens_of_outOfRange {p : Phrase} {digits : Token} (h : p.OutOfRange digits) :
    digits ∈ p.tokens := by
  obtain ⟨keyword, operands, shape, hshape, hfits⟩ := p
  unfold OutOfRange amount? at h
  dsimp only at h
  split at h
  · obtain ⟨rfl, -⟩ := Prod.mk.inj (Option.some.inj h)
    exact List.mem_cons_of_mem _ List.mem_cons_self
  · obtain ⟨rfl, -⟩ := Prod.mk.inj (Option.some.inj h)
    simp [tokens]
  · cases h

/-- The fault names the line of a token, and if it quotes a text, that is the token's. -/
def RecipeFault.IsAbout (fault : RecipeFault) (t : Token) : Prop :=
  fault.line? = some t.line ∧ ∀ text ∈ fault.quoted?, t.text = text

/-- A fault of the grammar is about a token, unless it is that there are no more. -/
theorem isAbout_of_parse {room : Nat} {ts : List Token} {fault : RecipeFault}
    (h : parse room ts = .error fault) : fault = .unexpectedEnd ∨ ∃ t ∈ ts, fault.IsAbout t := by
  have hreads := reads_parse room ts
  rw [h] at hreads
  cases hreads with
  | unexpectedToken hsound hpart htoken =>
      refine Or.inr ⟨_, ?_, rfl, fun text htext => Option.some.inj htext⟩
      exact List.mem_append_right _ (List.mem_append_right _ List.mem_cons_self)
  | unexpectedEnd hsound hpart hsome => exact Or.inl rfl
  | valueOutOfRange hsound hp =>
      refine Or.inr ⟨_, ?_, rfl, fun text htext => Option.some.inj htext⟩
      exact List.mem_append_right _ (List.mem_append_left _ (Phrase.mem_tokens_of_outOfRange hp))
  | tooManyStatements hsound hp hroom =>
      refine Or.inr ⟨_, ?_, rfl, fun text htext => by cases htext⟩
      exact List.mem_append_right _ (List.mem_append_left _ List.mem_cons_self)

/-- A compile fault is that of the tokens, or it is about a token of the text. -/
theorem isAbout_of_compile {source : String} {fault : RecipeFault}
    (h : compile source = .error fault) :
    tokens source = .error fault ∨ fault = .unexpectedEnd ∨
      ∃ before t after, tokens source = .ok (before ++ t :: after) ∧ fault.IsAbout t ∧
        StandsBehind source.toList before t := by
  rcases bind_eq_error h with htokens | ⟨ts, htokens, h⟩
  · exact Or.inl htokens
  rcases bind_eq_error h with hparse | ⟨statements, -, h⟩
  · refine Or.inr ((isAbout_of_parse hparse).imp_right ?_)
    rintro ⟨t, hmem, habout⟩
    obtain ⟨before, after, rfl⟩ := List.append_of_mem hmem
    exact ⟨before, t, after, htokens, habout, standsBehind_of_scan htokens⟩
  · cases h

theorem StandsBehind.line_le {source : List Char} {before : List Token} {t : Token}
    (h : StandsBehind source before t) : 1 ≤ t.line ∧ t.line ≤ 1 + source.count '\n' := by
  obtain ⟨above, below, rfl, -, hline⟩ := h
  rw [hline, List.count_append]
  omega

/-- The tokens of a text make it up, each on the line that the line breaks before it count; or they make
it up to the first place where no token begins, and the fault names the line of this place and quotes the
rest of it. A line that a compile fault names is one of the text, and a token that it quotes stands on
this line. -/
theorem faults_are_located (source : String) :
    ((∃ ts, tokens source = .ok ts ∧ Tiles 1 source.toList ts ∧
        ∀ before t after, ts = before ++ t :: after → StandsBehind source.toList before t) ∨
      ∃ above rest ts text, source.toList = above ++ rest ∧ Tiles 1 above ts ∧
        ScansTo 1 source.toList ts (1 + above.count '\n') rest ∧
        Starts rest ∧ lexeme? rest = none ∧
        tokens source = .error (.unexpectedText (1 + above.count '\n') text) ∧
        text ≠ [] ∧ IsRestOfLine rest text) ∧
    ∀ fault, compile source = .error fault →
      (∀ line, fault.line? = some line → 1 ≤ line ∧ line ≤ 1 + source.toList.count '\n') ∧
      ∀ line text, fault = .unexpectedToken line text ∨ fault = .valueOutOfRange line text →
        ∃ before t after, tokens source = .ok (before ++ t :: after) ∧ t.line = line ∧
          t.text = text ∧ StandsBehind source.toList before t := by
  refine ⟨(tokens_cases source).imp_left ?_, fun fault h => ⟨fun line hline => ?_, ?_⟩⟩
  · rintro ⟨ts, htokens, htiles⟩
    refine ⟨ts, htokens, htiles, ?_⟩
    rintro before t after rfl
    exact htiles.split
  · rcases isAbout_of_compile h with htokens | rfl | ⟨before, t, after, -, habout, hstands⟩
    · obtain ⟨line', text, rfl, hbounds⟩ := exists_line_of_tokens htokens
      cases hline
      exact hbounds
    · cases hline
    · rw [habout.1] at hline
      cases hline
      exact hstands.line_le
  · intro line text hfault
    have habout : fault.line? = some line ∧ fault.quoted? = some text := by
      rcases hfault with rfl | rfl <;> exact ⟨rfl, rfl⟩
    obtain ⟨hline, hquoted⟩ := habout
    rcases isAbout_of_compile h with htokens | rfl | ⟨before, t, after, htokens, habout, hstands⟩
    · obtain ⟨line', text', rfl, -⟩ := exists_line_of_tokens htokens
      cases hquoted
    · cases hquoted
    · rw [habout.1] at hline
      exact ⟨before, t, after, htokens, Option.some.inj hline, habout.2 text hquoted, hstands⟩

theorem faults_are_located_of_stray_number :
    compile "pause\n42" = .error (.unexpectedToken 2 ['4', '2']) ∧ 2 ≤ 1 + "pause\n42".toList.count '\n' ∧
      ∃ before t after, tokens "pause\n42" = .ok (before ++ t :: after) ∧ t.line = 2 ∧
        t.text = ['4', '2'] ∧ StandsBehind "pause\n42".toList before t := by
  have hbreak : Blank ['\n'] := List.forall_mem_singleton.mpr rfl
  have htokens : tokens "pause\n42" =
      .ok [⟨.pause, ['p', 'a', 'u', 's', 'e'], 1⟩, ⟨.integer, ['4', '2'], 2⟩] :=
    tokens_of_scansTo <|
      @ScansTo.token 1 2 5 .pause _ _ _ ⟨'p', _, rfl, rfl⟩ (by decide) <| .gap hbreak <|
      @ScansTo.token 2 2 2 .integer _ _ _ ⟨'4', _, rfl, rfl⟩ (by decide) .stop
  have hrange : ∀ digits,
      ¬ (Phrase.bare .pause ['p', 'a', 'u', 's', 'e'] rfl).OutOfRange digits := by
    rintro _ ⟨⟩
  have hparse := parse_phrase hrange Script.capacity [⟨.integer, ['4', '2'], 2⟩]
  have hcompile : compile "pause\n42" = .error (.unexpectedToken 2 ['4', '2']) := by
    rw [if_neg (by decide), parse_cons_of_error _ (expansion_of_no_keyword rfl [])] at hparse
    rw [compile_of_tokens htokens]
    exact congrArg (Except.map Recipe.mk) hparse
  obtain ⟨hline, hquoted⟩ := (faults_are_located "pause\n42").2 _ hcompile
  exact ⟨hcompile, (hline 2 rfl).2, hquoted 2 _ (Or.inl rfl)⟩

end Brewhouse.Recipe
