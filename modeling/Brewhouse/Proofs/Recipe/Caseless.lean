import Brewhouse.Proofs.Recipe.Cutting
import Brewhouse.Proofs.Recipe.Joined
import Brewhouse.Proofs.Recipe.Meaning

/-!
Recipes without regard to case. Keywords and units match letters whatever their case, and no other test
that is made on a character tells the two cases apart; so recipes that differ in the case of ASCII letters
only have the same tokens but for the case of their texts, and the same statements.
-/

namespace Brewhouse.Recipe

/-! ### Characters -/

/-- What is the same for the 26 capitals and their small letters is the same for every character and its
small letter. -/
theorem apply_toLower {α : Type} {f : Char → α}
    (h : ∀ n < 26, f (Char.ofNat (65 + n)).toLower = f (Char.ofNat (65 + n))) (c : Char) :
    f c.toLower = f c := by
  by_cases hcapital : 'A'.val ≤ c.val ∧ c.val ≤ 'Z'.val
  · obtain ⟨hlow, hhigh⟩ := hcapital
    have hlow' : 65 ≤ c.toNat := hlow
    have hhigh' : c.toNat ≤ 90 := hhigh
    have hc : Char.ofNat (65 + (c.toNat - 65)) = c := by
      rw [Nat.add_sub_cancel' hlow', Char.ofNat_toNat]
    rw [← hc]
    exact h _ (by omega)
  · have hsame : c.toLower = c := dif_neg hcapital
    rw [hsame]

@[simp]
theorem toLower_toLower (c : Char) : c.toLower.toLower = c.toLower :=
  apply_toLower (f := Char.toLower) (by decide) c

theorem isGap_toLower : isGap ∘ Char.toLower = isGap :=
  funext <| apply_toLower (by decide)

theorem isDigit_toLower : Char.isDigit ∘ Char.toLower = Char.isDigit :=
  funext <| apply_toLower (by decide)

theorem isBlank_toLower : Text.isBlank ∘ Char.toLower = Text.isBlank :=
  funext <| apply_toLower (by decide)

theorem isAlphanumeric_toLower (c : Char) :
    Text.isAlphanumeric c.toLower = Text.isAlphanumeric c :=
  apply_toLower (by decide) c

theorem utf8Size_toLower (c : Char) : c.toLower.utf8Size = c.utf8Size :=
  apply_toLower (by decide) c

/-- The letters apart, a character is no other character's small letter. -/
theorem toLower_eq_iff {m : Char} (hm : ∀ n < 26, (Char.ofNat (65 + n)).toLower = m ↔
    Char.ofNat (65 + n) = m) (c : Char) : c.toLower = m ↔ c = m :=
  Iff.of_eq <| apply_toLower (f := fun c => c = m) (fun n hn => propext (hm n hn)) c

/-! ### Texts -/

def small (text : List Char) : List Char :=
  text.map Char.toLower

theorem head?_small {m : Char} (hm : ∀ n < 26, (Char.ofNat (65 + n)).toLower = m ↔
    Char.ofNat (65 + n) = m) (text : List Char) :
    (small text).head? = some m ↔ text.head? = some m := by
  cases text with
  | nil => exact Iff.rfl
  | cons c text =>
      rw [small, List.map_cons, List.head?_cons, List.head?_cons, Option.some_inj, Option.some_inj]
      exact toLower_eq_iff hm c

theorem drop_small (n : Nat) (text : List Char) : (small text).drop n = small (text.drop n) :=
  List.map_drop.symm

theorem take_small (n : Nat) (text : List Char) : (small text).take n = small (text.take n) :=
  List.map_take.symm

theorem takeWhile_small {p : Char → Bool} (hp : p ∘ Char.toLower = p) (text : List Char) :
    (small text).takeWhile p = small (text.takeWhile p) := by
  rw [small, List.takeWhile_map, hp]
  rfl

theorem dropWhile_small {p : Char → Bool} (hp : p ∘ Char.toLower = p) (text : List Char) :
    (small text).dropWhile p = small (text.dropWhile p) := by
  rw [small, List.dropWhile_map, hp]
  rfl

theorem length_small (text : List Char) : (small text).length = text.length :=
  List.length_map _

/-! ### Tokens at the beginning of a text -/

theorem matchPhrase?_small (phrase text : List Char) :
    matchPhrase? phrase (small text) = matchPhrase? phrase text := by
  fun_induction matchPhrase? phrase text with
  | case1 text => rw [matchPhrase?]
  | case2 phrase text gap hgap =>
      rw [matchPhrase?, takeWhile_small isGap_toLower, length_small]
      exact if_pos hgap
  | case3 phrase text gap hgap ih =>
      rw [matchPhrase?, takeWhile_small isGap_toLower, length_small, ← ih, ← drop_small]
      exact if_neg hgap
  | case4 expected phrase hspace =>
      rw [small, List.map_nil, matchPhrase?]
      exact hspace
  | case5 phrase c text hspace ih =>
      rw [small, List.map_cons, matchPhrase?, toLower_toLower, if_pos rfl, ← small, ih]
      exact hspace
  | case6 expected phrase c text hspace hexpected =>
      rw [small, List.map_cons, matchPhrase?, toLower_toLower, if_neg hexpected]
      exact hspace

theorem atBoundary_small (text : List Char) : atBoundary (small text) = atBoundary text := by
  cases text with
  | nil => rfl
  | cons c text => exact congrArg not (isAlphanumeric_toLower c)

theorem matchWord?_small (text : List Char) : matchWord? (small text) = matchWord? text := by
  funext phrase
  simp only [matchWord?, matchPhrase?_small, drop_small, atBoundary_small]

theorem matchFirst?_small (text : List Char) (entries : List Entry) :
    matchFirst? (small text) entries = matchFirst? text entries := by
  simp only [matchFirst?, matchWord?_small]

theorem withColon_small (text : List Char) : withColon (small text) = withColon text := by
  funext found
  simp only [withColon, drop_small, head?_small (m := ':') (by decide)]

theorem signLength_small (text : List Char) : signLength (small text) = signLength text := by
  simp only [signLength, head?_small (m := '-') (by decide),
    head?_small (m := '+') (by decide)]

theorem matchNumber?_small (text : List Char) : matchNumber? (small text) = matchNumber? text := by
  simp only [matchNumber?, signLength_small, drop_small, takeWhile_small isDigit_toLower,
    length_small, head?_small (m := '.') (by decide)]

theorem matchScale?_small (text : List Char) : matchScale? (small text) = matchScale? text := by
  simp only [matchScale?, matchPhrase?_small, drop_small, matchFirst?_small]

theorem lexeme?_small (text : List Char) : lexeme? (small text) = lexeme? text := by
  simp only [lexeme?, matchFirst?_small, withColon_small, matchNumber?_small, matchScale?_small]

/-! ### All tokens of a text -/

def Token.small (t : Token) : Token :=
  { t with text := Recipe.small t.text }

def RecipeFault.small : RecipeFault → RecipeFault
  | .unexpectedText line text => .unexpectedText line (Recipe.small text)
  | .unexpectedToken line text => .unexpectedToken line (Recipe.small text)
  | .valueOutOfRange line text => .valueOutOfRange line (Recipe.small text)
  | fault => fault

theorem restOfLine_small (text : List Char) : restOfLine (small text) = small (restOfLine text) := by
  have hbreak : (· != '\n') ∘ Char.toLower = (· != '\n') :=
    funext <| apply_toLower (f := (· != '\n')) (by decide)
  rw [restOfLine, takeWhile_small hbreak, Text.trimRight, small, ← List.map_reverse, ← small,
    dropWhile_small isBlank_toLower, small, ← List.map_reverse]
  rfl

theorem Starts.small {text : List Char} (h : Starts text) : Starts (small text) := by
  obtain ⟨c, rest, rfl, hc⟩ := h
  exact ⟨c.toLower, _, rfl, (congrFun isBlank_toLower c).trans hc⟩

theorem Blank.small {gap : List Char} (h : Blank gap) : Blank (small gap) := by
  intro c hc
  obtain ⟨d, hd, rfl⟩ := List.mem_map.mp hc
  exact (congrFun isBlank_toLower d).trans (h d hd)

theorem count_small (text : List Char) : (small text).count '\n' = text.count '\n' := by
  rw [small, List.count_eq_countP, List.countP_map]
  exact congrArg (List.countP · text) (funext <| apply_toLower (f := (· == '\n')) (by decide))

/-- Small letters are read as the letters of the text are. -/
theorem scan_small (line : Nat) (source : List Char) :
    scan line (small source) =
      ((scan line source).map (List.map Token.small)).mapError RecipeFault.small := by
  induction hlength : source.length using Nat.strong_induction_on generalizing line source with
  | _ length ih =>
      obtain ⟨gap, rest, rfl, hgap, hrest⟩ := exists_gap source
      have hsplit : small (gap ++ rest) = small gap ++ small rest := List.map_append
      rw [hsplit, scan_gap hgap.small, scan_gap hgap, count_small]
      rcases hrest with rfl | hstart
      · rw [small, List.map_nil, scan_nil]
        rfl
      · rw [scan_starts hstart.small, scan_starts hstart, lexeme?_small]
        cases hfound : lexeme? rest with
        | none =>
            rw [restOfLine_small]
            rfl
        | some found =>
            obtain ⟨kind, n⟩ := found
            have hpos := lexeme?_pos hfound
            have hsome : 0 < rest.length := by
              obtain ⟨c, rest, rfl, -⟩ := hstart
              exact Nat.succ_pos _
            dsimp only
            rw [drop_small, take_small, ih (rest.drop n).length _ _ _ rfl]
            · cases scan (line + gap.count '\n') (rest.drop n) <;> rfl
            · rw [← hlength, List.length_drop, List.length_append]
              dsimp only at hpos
              omega

/-! ### Recipes -/

/-- Digits have no case. -/
theorem takeWhile_isDigit_small (text : List Char) :
    (small text).takeWhile Char.isDigit = text.takeWhile Char.isDigit := by
  rw [takeWhile_small isDigit_toLower, small]
  refine (List.map_congr_left fun c hc => ?_).trans (List.map_id _)
  exact toLower_of_isForeign (Bool.or_eq_true_iff.mpr (Or.inl (List.mem_takeWhile_imp hc)))

theorem ofChars_small (text : List Char) :
    Exact.Decimal.ofChars (small text) = Exact.Decimal.ofChars text := by
  simp only [Exact.Decimal.ofChars, head?_small (m := '-') (by decide) text,
    head?_small (m := '+') (by decide) text, drop_small, ← apply_ite small, takeWhile_isDigit_small]

theorem keepsMeaning_small : KeepsMeaning Token.small RecipeFault.small where
  kind _ := rfl
  number t := ofChars_small t.text
  unexpected _ := rfl
  outOfRange _ := rfl
  tooMany _ := rfl
  ended := rfl

theorem toList_toLower (source : String) : source.toLower.toList = small source.toList :=
  String.toList_map

theorem tokens_toLower (source : String) :
    tokens source.toLower =
      ((tokens source).map (List.map Token.small)).mapError RecipeFault.small := by
  rw [tokens, toList_toLower, scan_small]
  rfl

/-- A recipe in small letters has the same statements. -/
theorem compile_toLower (source : String) :
    compile source.toLower = (compile source).mapError RecipeFault.small := by
  have htokens := tokens_toLower source
  cases hread : tokens source with
  | error fault =>
      rw [hread] at htokens
      rw [compile, compile, htokens, hread]
      rfl
  | ok ts =>
      rw [hread] at htokens
      rw [compile_of_tokens htokens, compile_of_tokens hread, keepsMeaning_small.parse]
      cases parse Script.capacity ts <;> rfl

/-! ### Two recipes -/

/-- The texts are the same but for the case of ASCII letters. -/
def SameButCase (text other : List Char) : Prop :=
  text.map Char.toLower = other.map Char.toLower

theorem utf8ByteSize_small (text : List Char) :
    (String.ofList (small text)).utf8ByteSize = (String.ofList text).utf8ByteSize := by
  induction text with
  | nil => rfl
  | cons c text ih =>
      rw [small, List.map_cons, String.ofList_cons, String.ofList_cons, String.utf8ByteSize_append,
        String.utf8ByteSize_append, String.utf8ByteSize_singleton, String.utf8ByteSize_singleton,
        utf8Size_toLower, ← small, ih]

/-- The tokens are of one kind, on one line and of one size, and have the same text but for its case. -/
structure Token.SameButCase (t u : Token) : Prop where
  kind : t.kind = u.kind
  line : t.line = u.line
  size : (String.ofList t.text).utf8ByteSize = (String.ofList u.text).utf8ByteSize
  text : Recipe.SameButCase t.text u.text

/-- The faults have one cause and are on one line, and if they quote a text it is the same but for its
case. -/
inductive RecipeFault.SameButCase : RecipeFault → RecipeFault → Prop
  | unexpectedText (line : Nat) {text other : List Char} (h : Recipe.SameButCase text other) :
      SameButCase (.unexpectedText line text) (.unexpectedText line other)
  | unexpectedToken (line : Nat) {text other : List Char} (h : Recipe.SameButCase text other) :
      SameButCase (.unexpectedToken line text) (.unexpectedToken line other)
  | valueOutOfRange (line : Nat) {text other : List Char} (h : Recipe.SameButCase text other) :
      SameButCase (.valueOutOfRange line text) (.valueOutOfRange line other)
  | same (fault : RecipeFault) : SameButCase fault fault

theorem Token.sameButCase_of_small {t u : Token} (h : t.small = u.small) : t.SameButCase u := by
  obtain ⟨hkind, htext, hline⟩ := Token.mk.inj h
  refine ⟨hkind, hline, ?_, htext⟩
  rw [← utf8ByteSize_small, htext, utf8ByteSize_small]

theorem RecipeFault.sameButCase_of_small {fault other : RecipeFault}
    (h : fault.small = other.small) : fault.SameButCase other := by
  cases fault <;> cases other
  case unexpectedText.unexpectedText =>
    obtain ⟨rfl, htext⟩ := RecipeFault.unexpectedText.inj h
    exact .unexpectedText _ htext
  case unexpectedToken.unexpectedToken =>
    obtain ⟨rfl, htext⟩ := RecipeFault.unexpectedToken.inj h
    exact .unexpectedToken _ htext
  case valueOutOfRange.valueOutOfRange =>
    obtain ⟨rfl, htext⟩ := RecipeFault.valueOutOfRange.inj h
    exact .valueOutOfRange _ htext
  case unexpectedEnd.unexpectedEnd | tooManyStatements.tooManyStatements |
      notTransmittable.notTransmittable | missingPhase.missingPhase =>
    cases h
    exact .same _
  all_goals cases h

/-- Both come to a result, and the results are alike, or both to a fault, and the faults are alike. -/
inductive Alike {ε α : Type} (faults : ε → ε → Prop) (results : α → α → Prop) :
    Except ε α → Except ε α → Prop
  | ok {a b : α} (h : results a b) : Alike faults results (.ok a) (.ok b)
  | error {e e' : ε} (h : faults e e') : Alike faults results (.error e) (.error e')

theorem Alike.of_eq {ε ε' α α' : Type} {f : α → α'} {g : ε → ε'} {x y : Except ε α}
    (h : (x.map f).mapError g = (y.map f).mapError g) :
    Alike (fun e e' => g e = g e') (fun a b => f a = f b) x y := by
  cases x <;> cases y
  · exact .error (Except.error.inj h)
  · cases h
  · cases h
  · exact .ok (Except.ok.inj h)

theorem Alike.imp {ε α : Type} {faults faults' : ε → ε → Prop} {results results' : α → α → Prop}
    {x y : Except ε α} (h : Alike faults results x y) (hfaults : ∀ e e', faults e e' → faults' e e')
    (hresults : ∀ a b, results a b → results' a b) : Alike faults' results' x y := by
  cases h with
  | ok h => exact .ok (hresults _ _ h)
  | error h => exact .error (hfaults _ _ h)

/-- Recipes that differ in the case of ASCII letters only have the same tokens but for the case of their
texts, or none of them has; and they have the same statements or are refused for the same cause. -/
theorem compile_caseless {source other : String} (h : source.toLower = other.toLower) :
    Alike RecipeFault.SameButCase (List.Forall₂ Token.SameButCase) (tokens source) (tokens other) ∧
    Alike RecipeFault.SameButCase Eq (compile source) (compile other) := by
  refine ⟨?_, ?_⟩
  · have htokens := congrArg tokens h
    rw [tokens_toLower, tokens_toLower] at htokens
    refine (Alike.of_eq htokens).imp (fun _ _ => RecipeFault.sameButCase_of_small) fun ts us hsmall => ?_
    rw [← List.forall₂_eq_eq_eq, List.forall₂_map_left_iff, List.forall₂_map_right_iff] at hsmall
    exact hsmall.imp fun _ _ => Token.sameButCase_of_small
  · have hcompile : ((compile source).map id).mapError RecipeFault.small =
        ((compile other).map id).mapError RecipeFault.small := by
      rw [Except.map_id, id, id, ← compile_toLower, ← compile_toLower, h]
    exact (Alike.of_eq hcompile).imp (fun _ _ => RecipeFault.sameButCase_of_small) fun _ _ => id

/-- Capitals in keywords and units do not matter; a fault quotes what it is about as it is written. -/
theorem compile_caseless_of_shouting :
    let source := "Mash Volume: 20 L\nHEAT to 65 Stones"
    let other := "mash volume: 20 l\nheat TO 65 sTONES"
    source.toLower = other.toLower ∧ compile source = .error (.unexpectedText 2 "Stones".toList) ∧
      ∃ text, compile other = .error (.unexpectedText 2 text) ∧
        SameButCase "Stones".toList text := by
  intro source other
  have hcase : source.toLower = other.toLower := by
    rw [← String.toList_inj, toList_toLower, toList_toLower]
    decide
  have hsource : compile source = .error (.unexpectedText 2 "Stones".toList) := by decide +kernel
  obtain ⟨-, hcompile⟩ := compile_caseless hcase
  rw [hsource] at hcompile
  generalize compile other = outcome at hcompile
  cases hcompile with
  | error h =>
      cases h with
      | unexpectedText _ h => exact ⟨hcase, hsource, _, rfl, h⟩
      | same => exact ⟨hcase, hsource, _, rfl, rfl⟩

end Brewhouse.Recipe
