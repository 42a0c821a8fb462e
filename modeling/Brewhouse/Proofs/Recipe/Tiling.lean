import Brewhouse.Recipe.Scan
import Mathlib.Data.List.Basic
import Mathlib.Data.List.TakeWhile

/-!
How tokens lie in the text of a recipe. A token ends on the line it begins on, and what stands below that
line has no say in it; so a text reads the same whatever is put on the lines below it. The tokens of a text
and the blanks between them make up the text, and a token is on the line that the line breaks before it
count.
-/

namespace Brewhouse.Recipe

/-! ### Matches stay on their line -/

variable {α β γ : Type} {length : α → Nat} {length' : β → Nat} {find? : List Char → Option α}

/-- What is found ends before the next line, and nothing from there on has a say in it. -/
structure StaysOnLine (length : α → Nat) (find? : List Char → Option α) : Prop where
  length_le : ∀ {text found}, find? text = some found → length found ≤ text.length
  append_line : ∀ text below, find? (text ++ '\n' :: below) = find? text

theorem takeWhile_append_line {p : Char → Bool} (hp : p '\n' = false) (text below : List Char) :
    (text ++ '\n' :: below).takeWhile p = text.takeWhile p := by
  rw [List.takeWhile_append, List.takeWhile_cons_of_neg (by rw [hp]; exact Bool.false_ne_true),
    List.append_nil]
  split
  · next hall => exact ((List.takeWhile_prefix p).eq_of_length hall).symm
  · rfl

theorem drop_append_line {n : Nat} {text : List Char} (hn : n ≤ text.length) (below : List Char) :
    (text ++ '\n' :: below).drop n = text.drop n ++ '\n' :: below :=
  List.drop_append_of_le_length hn

theorem head?_append_line {c : Char} (hc : c ≠ '\n') (text below : List Char) :
    (text ++ '\n' :: below).head? = some c ↔ text.head? = some c := by
  cases text with
  | nil => simpa using hc.symm
  | cons first text => rfl

theorem lt_length_of_head?_drop {n : Nat} {c : Char} {text : List Char}
    (h : (text.drop n).head? = some c) : n < text.length := by
  by_contra hn
  rw [List.drop_eq_nil_of_le (Nat.le_of_not_lt hn)] at h
  cases h

theorem staysOnLine_matchPhrase? {phrase : List Char} (hphrase : '\n' ∉ phrase) :
    StaysOnLine id (matchPhrase? phrase) where
  length_le := by
    intro text
    fun_induction matchPhrase? phrase text with
    | case1 text =>
        rintro _ ⟨⟩
        exact Nat.zero_le _
    | case2 | case4 | case6 => rintro _ ⟨⟩
    | case3 phrase text gap _ ih =>
        intro found h
        obtain ⟨n, hn, rfl⟩ := Option.map_eq_some_iff.mp h
        have hrest : n ≤ (text.drop gap).length := ih (List.not_mem_of_not_mem_cons hphrase) hn
        have hgap : gap ≤ text.length := (List.takeWhile_prefix isGap).length_le
        rw [List.length_drop] at hrest
        show gap + n ≤ text.length
        omega
    | case5 phrase c text _ ih =>
        intro found h
        obtain ⟨n, hn, rfl⟩ := Option.map_eq_some_iff.mp h
        have hrest : n ≤ text.length := ih (List.not_mem_of_not_mem_cons hphrase) hn
        show 1 + n ≤ text.length + 1
        omega
  append_line := by
    intro text below
    fun_induction matchPhrase? phrase text with
    | case1 text => rw [matchPhrase?]
    | case2 phrase text gap hgap =>
        rw [matchPhrase?, takeWhile_append_line (by decide)]
        exact if_pos hgap
    | case3 phrase text gap hgap ih =>
        have hle : gap ≤ text.length := (List.takeWhile_prefix isGap).length_le
        rw [matchPhrase?, takeWhile_append_line (by decide)]
        show (if gap = 0 then none else _) = _
        rw [if_neg hgap, drop_append_line hle, ih (List.not_mem_of_not_mem_cons hphrase)]
    | case4 expected phrase hspace =>
        have hexpected : Char.toLower '\n' ≠ expected := by
          rintro rfl
          exact hphrase (List.mem_cons_self ..)
        rw [List.nil_append, matchPhrase?, if_neg hexpected]
        exact hspace
    | case5 phrase c text hspace ih =>
        rw [List.cons_append, matchPhrase?, if_pos rfl, ih (List.not_mem_of_not_mem_cons hphrase)]
        exact hspace
    | case6 expected phrase c text hspace hexpected =>
        rw [List.cons_append, matchPhrase?, if_neg hexpected]
        exact hspace

theorem atBoundary_append_line (text below : List Char) :
    atBoundary (text ++ '\n' :: below) = atBoundary text := by
  cases text with
  | nil =>
      show (!Text.isAlphanumeric '\n') = true
      decide
  | cons c text => rfl

theorem staysOnLine_matchWord? {phrase : String} (hphrase : '\n' ∉ phrase.toList) :
    StaysOnLine id (matchWord? · phrase) where
  length_le h :=
    (staysOnLine_matchPhrase? hphrase).length_le (Option.filter_eq_some_iff.mp h).1
  append_line text below := by
    have hmatch := staysOnLine_matchPhrase? hphrase
    unfold matchWord?
    rw [hmatch.append_line]
    cases hfound : matchPhrase? phrase.toList text with
    | none => rfl
    | some n =>
        have hle : n ≤ text.length := hmatch.length_le hfound
        rw [Option.filter_some, Option.filter_some, drop_append_line hle, atBoundary_append_line]

/-! ### Searches for several things -/

theorem StaysOnLine.map (h : StaysOnLine length find?) {f : α → β}
    (hf : ∀ found, length' (f found) = length found) :
    StaysOnLine length' fun text => (find? text).map f where
  length_le hfound := by
    obtain ⟨found, hfind, rfl⟩ := Option.map_eq_some_iff.mp hfound
    rw [hf]
    exact h.length_le hfind
  append_line text below := by rw [h.append_line]

theorem StaysOnLine.or {other? : List Char → Option α} (h : StaysOnLine length find?)
    (hother : StaysOnLine length other?) :
    StaysOnLine length fun text => (find? text).or (other? text) where
  length_le hfound := by
    rcases Option.or_eq_some_iff.mp hfound with hfound | ⟨-, hfound⟩
    · exact h.length_le hfound
    · exact hother.length_le hfound
  append_line text below := by rw [h.append_line, hother.append_line]

theorem StaysOnLine.findSome? {entries : List γ} {find? : γ → List Char → Option α}
    (h : ∀ entry ∈ entries, StaysOnLine length (find? entry)) :
    StaysOnLine length fun text => entries.findSome? (find? · text) where
  length_le hfound := by
    obtain ⟨entry, hentry, hfind⟩ := List.exists_of_findSome?_eq_some hfound
    exact (h entry hentry).length_le hfind
  append_line text below := by
    induction entries with
    | nil => rfl
    | cons entry entries ih =>
        obtain ⟨hentry, hentries⟩ := List.forall_mem_cons.mp h
        rw [List.findSome?_cons, List.findSome?_cons, hentry.append_line, ih hentries]

/-- What is found behind something that was found first. -/
theorem StaysOnLine.behind {skip? : List Char → Option Nat} (hskip : StaysOnLine id skip?)
    {find? : List Char → Option (TokenKind × Nat)} (h : StaysOnLine Prod.snd find?) :
    StaysOnLine Prod.snd fun text =>
      (skip? text).bind fun skipped =>
        (find? (text.drop skipped)).map fun found => (found.1, skipped + found.2) where
  length_le := by
    intro text result hfound
    obtain ⟨skipped, hskipped, hfound⟩ := Option.bind_eq_some_iff.mp hfound
    obtain ⟨found, hfind, rfl⟩ := Option.map_eq_some_iff.mp hfound
    have hle : skipped ≤ text.length := hskip.length_le hskipped
    have hrest := h.length_le hfind
    rw [List.length_drop] at hrest
    show skipped + found.2 ≤ text.length
    omega
  append_line text below := by
    simp only [hskip.append_line]
    cases hskipped : skip? text with
    | none => rfl
    | some skipped =>
        have hle : skipped ≤ text.length := hskip.length_le hskipped
        simp only [Option.bind_some, drop_append_line hle, h.append_line]

theorem StaysOnLine.withColon {find? : List Char → Option (TokenKind × Nat)}
    (h : StaysOnLine Prod.snd find?) :
    StaysOnLine Prod.snd fun text => (find? text).map (withColon text) where
  length_le := by
    intro text result hfound
    obtain ⟨found, hfind, rfl⟩ := Option.map_eq_some_iff.mp hfound
    unfold Recipe.withColon
    split
    · next hcolon => exact lt_length_of_head?_drop hcolon
    · exact h.length_le hfind
  append_line text below := by
    simp only [h.append_line]
    cases hfind : find? text with
    | none => rfl
    | some found =>
        unfold Recipe.withColon
        simp only [Option.map_some, drop_append_line (h.length_le hfind),
          head?_append_line (show ':' ≠ '\n' by decide)]

/-! ### Tokens stay on their line -/

/-- The phrases of an entry are written on one line. -/
def Entry.OnLine (entry : Entry) : Prop :=
  ∀ phrase ∈ entry.phrases, '\n' ∉ phrase.toList

theorem keywords_onLine : ∀ entry ∈ keywords, entry.OnLine := by
  simp [keywords, Entry.OnLine]

theorem scales_onLine : ∀ entry ∈ scales, entry.OnLine := by
  simp [scales, Entry.OnLine]

theorem units_onLine : ∀ entry ∈ units, entry.OnLine := by
  simp [units, Entry.OnLine]

theorem degreeWords_onLine : ∀ word ∈ degreeWords, '\n' ∉ word.toList := by
  simp [degreeWords]

theorem staysOnLine_matchFirst? {entries : List Entry} (h : ∀ entry ∈ entries, entry.OnLine) :
    StaysOnLine Prod.snd (matchFirst? · entries) :=
  StaysOnLine.findSome? fun entry hentry =>
    (StaysOnLine.findSome? fun phrase hphrase =>
      staysOnLine_matchWord? (h entry hentry phrase hphrase)).map fun _ => rfl

theorem staysOnLine_matchScale? : StaysOnLine Prod.snd matchScale? :=
  StaysOnLine.findSome? fun scale hscale => StaysOnLine.findSome? fun word hword =>
    (staysOnLine_matchPhrase? (degreeWords_onLine word hword)).behind
      (staysOnLine_matchFirst? (List.forall_mem_singleton.mpr (scales_onLine scale hscale)))

theorem signLength_append_line (text below : List Char) :
    signLength (text ++ '\n' :: below) = signLength text := by
  unfold signLength
  simp only [head?_append_line (show '-' ≠ '\n' by decide),
    head?_append_line (show '+' ≠ '\n' by decide)]

theorem signLength_le (text : List Char) : signLength text ≤ text.length := by
  unfold signLength
  cases text with
  | nil => decide
  | cons c text => split <;> simp

/-- How many characters the sign and the digits of a number take. -/
def wholeLength (text : List Char) : Nat :=
  signLength text + ((text.drop (signLength text)).takeWhile Char.isDigit).length

theorem wholeLength_le (text : List Char) : wholeLength text ≤ text.length := by
  have hsign := signLength_le text
  have hdigits := (List.takeWhile_prefix Char.isDigit (l := text.drop (signLength text))).length_le
  rw [List.length_drop] at hdigits
  unfold wholeLength
  omega

theorem wholeLength_append_line (text below : List Char) :
    wholeLength (text ++ '\n' :: below) = wholeLength text := by
  unfold wholeLength
  rw [signLength_append_line, drop_append_line (signLength_le text), takeWhile_append_line (by decide)]

theorem matchNumber?_eq (text : List Char) :
    matchNumber? text =
      if wholeLength text = signLength text then none
      else if (text.drop (wholeLength text)).head? = some '.' then
        some (.decimal, wholeLength text + 1 +
          ((text.drop (wholeLength text + 1)).takeWhile Char.isDigit).length)
      else some (.integer, wholeLength text) := by
  have hnone : wholeLength text = signLength text ↔
      ((text.drop (signLength text)).takeWhile Char.isDigit).length = 0 := Nat.add_eq_left
  simp only [hnone, ← List.drop_drop]
  rfl

theorem staysOnLine_matchNumber? : StaysOnLine Prod.snd matchNumber? where
  length_le := by
    intro text found h
    rw [matchNumber?_eq] at h
    split at h
    · cases h
    split at h
    · next hpoint =>
      cases h
      have hwhole := lt_length_of_head?_drop hpoint
      have hfraction := (List.takeWhile_prefix Char.isDigit
        (l := text.drop (wholeLength text + 1))).length_le
      rw [List.length_drop] at hfraction
      dsimp only
      omega
    · cases h
      exact wholeLength_le text
  append_line text below := by
    rw [matchNumber?_eq, matchNumber?_eq, wholeLength_append_line, signLength_append_line]
    simp only [drop_append_line (wholeLength_le text), head?_append_line (show '.' ≠ '\n' by decide)]
    split
    · rfl
    split
    · next hpoint =>
      rw [drop_append_line (lt_length_of_head?_drop hpoint), takeWhile_append_line (by decide)]
    · rfl

theorem staysOnLine_lexeme? : StaysOnLine Prod.snd lexeme? :=
  (staysOnLine_matchFirst? keywords_onLine).withColon.or <|
    staysOnLine_matchNumber?.or <|
      staysOnLine_matchScale?.or (staysOnLine_matchFirst? units_onLine).withColon

/-- A token has no line break in it. -/
theorem newline_not_mem_lexeme {text : List Char} {kind : TokenKind} {n : Nat}
    (h : lexeme? text = some (kind, n)) : '\n' ∉ text.take n := by
  intro hmem
  obtain ⟨above, below, rfl, habove⟩ := List.eq_append_cons_of_mem (List.mem_of_mem_take hmem)
  rw [staysOnLine_lexeme?.append_line] at h
  rw [List.take_append_of_le_length (staysOnLine_lexeme?.length_le h)] at hmem
  exact habove (List.mem_of_mem_take hmem)

/-! ### Scanning -/

def Blank (gap : List Char) : Prop :=
  ∀ c ∈ gap, Text.isBlank c = true

/-- A text that does not begin with a blank, nor is empty. -/
def Starts (text : List Char) : Prop :=
  ∃ c rest, text = c :: rest ∧ Text.isBlank c = false

theorem exists_gap (source : List Char) :
    ∃ gap rest, source = gap ++ rest ∧ Blank gap ∧ (rest = [] ∨ Starts rest) := by
  refine ⟨_, _, (List.takeWhile_append_dropWhile (p := Text.isBlank)).symm,
    fun c hc => List.mem_takeWhile_imp hc, ?_⟩
  have hhead := List.head?_dropWhile_not Text.isBlank source
  cases hrest : source.dropWhile Text.isBlank with
  | nil => exact Or.inl rfl
  | cons c rest =>
      rw [hrest] at hhead
      exact Or.inr ⟨c, rest, rfl, hhead⟩

theorem Starts.takeWhile_isBlank {text : List Char} (h : Starts text) :
    text.takeWhile Text.isBlank = [] := by
  obtain ⟨c, rest, rfl, hc⟩ := h
  exact List.takeWhile_cons_of_neg (by rw [hc]; exact Bool.false_ne_true)

theorem Starts.dropWhile_isBlank {text : List Char} (h : Starts text) :
    text.dropWhile Text.isBlank = text := by
  obtain ⟨c, rest, rfl, hc⟩ := h
  exact List.dropWhile_cons_of_neg (by rw [hc]; exact Bool.false_ne_true)

theorem Starts.append {text : List Char} (h : Starts text) (below : List Char) :
    Starts (text ++ below) := by
  obtain ⟨c, rest, rfl, hc⟩ := h
  exact ⟨c, rest ++ below, rfl, hc⟩

theorem scan_nil (line : Nat) : scan line [] = .ok [] := by
  rw [scan]
  rfl

theorem scan_gap {gap : List Char} (hgap : Blank gap) (line : Nat) (source : List Char) :
    scan line (gap ++ source) = scan (line + gap.count '\n') source := by
  have htake : (gap ++ source).takeWhile Text.isBlank = gap ++ source.takeWhile Text.isBlank :=
    List.takeWhile_append_of_pos hgap
  have hdrop : (gap ++ source).dropWhile Text.isBlank = source.dropWhile Text.isBlank :=
    List.dropWhile_append_of_pos hgap
  rw [scan, scan.eq_1 (line + gap.count '\n'), htake, hdrop, List.count_append, Nat.add_assoc]

theorem scan_starts {source : List Char} (hstart : Starts source) (line : Nat) :
    scan line source =
      match lexeme? source with
      | none => .error (.unexpectedText line (restOfLine source))
      | some (kind, n) =>
        (scan line (source.drop n)).map (⟨kind, source.take n, line⟩ :: ·) := by
  have hsome : source ≠ [] := by
    obtain ⟨c, rest, rfl, -⟩ := hstart
    exact List.cons_ne_nil c rest
  rw [scan]
  simp only [hstart.takeWhile_isBlank, hstart.dropWhile_isBlank, dif_neg hsome, List.count_nil,
    Nat.add_zero]
  split
  · next hfound =>
    rw [hstart.dropWhile_isBlank] at hfound
    rw [hfound]
  · next hfound =>
    rw [hstart.dropWhile_isBlank] at hfound
    rw [hfound]

/-- From a text that begins on `line`, the tokens are read up to `rest`, which begins on `line'`. -/
inductive ScansTo : Nat → List Char → List Token → Nat → List Char → Prop where
  | stop {line : Nat} {rest : List Char} : ScansTo line rest [] line rest
  | gap {line line' : Nat} {gap source rest : List Char} {tokens : List Token} (hgap : Blank gap)
      (h : ScansTo (line + gap.count '\n') source tokens line' rest) :
      ScansTo line (gap ++ source) tokens line' rest
  | token {line line' n : Nat} {kind : TokenKind} {source rest : List Char} {tokens : List Token}
      (hstart : Starts source) (hfound : lexeme? source = some (kind, n))
      (h : ScansTo line (source.drop n) tokens line' rest) :
      ScansTo line source (⟨kind, source.take n, line⟩ :: tokens) line' rest

namespace ScansTo

variable {line line' : Nat} {source rest : List Char} {tokens : List Token}

theorem scan_eq (h : ScansTo line source tokens line' rest) :
    scan line source = (scan line' rest).map (tokens ++ ·) := by
  induction h with
  | @stop line rest => cases scan line rest <;> rfl
  | gap hgap _ ih => rw [scan_gap hgap, ih]
  | @token line line' n kind source rest tokens hstart hfound _ ih =>
      rw [scan_starts hstart, hfound]
      dsimp only
      rw [ih]
      cases scan line' rest <;> rfl

theorem append_line (h : ScansTo line source tokens line' rest) (below : List Char) :
    ScansTo line (source ++ '\n' :: below) tokens line' (rest ++ '\n' :: below) := by
  induction h with
  | stop => exact .stop
  | gap hgap _ ih =>
      rw [List.append_assoc]
      exact .gap hgap ih
  | @token line line' n kind source rest tokens hstart hfound _ ih =>
      have hle : n ≤ source.length := staysOnLine_lexeme?.length_le hfound
      have htake : (source ++ '\n' :: below).take n = source.take n :=
        List.take_append_of_le_length hle
      rw [← drop_append_line hle] at ih
      rw [← htake]
      exact .token (hstart.append _) ((staysOnLine_lexeme?.append_line source below).trans hfound) ih

/-- A text is read to its end, or up to where no token begins. -/
theorem exists_scansTo (line : Nat) (source : List Char) :
    ∃ tokens line' rest, ScansTo line source tokens line' rest ∧
      (rest = [] ∨ (Starts rest ∧ lexeme? rest = none)) := by
  -- on the length of the text, as a token takes at least one character of it
  induction hlength : source.length using Nat.strong_induction_on generalizing line source with
  | _ length ih =>
      subst hlength
      obtain ⟨gap, text, rfl, hgap, rfl | hstart⟩ := exists_gap source
      · exact ⟨[], _, [], .gap hgap .stop, Or.inl rfl⟩
      cases hfound : lexeme? text with
      | none => exact ⟨[], _, text, .gap hgap .stop, Or.inr ⟨hstart, hfound⟩⟩
      | some found =>
          obtain ⟨kind, n⟩ := found
          have hpos : 0 < n := lexeme?_pos hfound
          have hle : n ≤ text.length := staysOnLine_lexeme?.length_le hfound
          have hshorter : (text.drop n).length < (gap ++ text).length := by
            rw [List.length_drop, List.length_append]
            omega
          obtain ⟨tokens, line', rest, hread, hend⟩ := ih _ hshorter (line + gap.count '\n') _ rfl
          exact ⟨_, line', rest, .gap hgap (.token hstart hfound hread), hend⟩

end ScansTo

theorem scansTo_of_scan {line : Nat} {source : List Char} {tokens : List Token}
    (h : scan line source = .ok tokens) : ∃ line', ScansTo line source tokens line' [] := by
  obtain ⟨tokens', line', rest, hread, rfl | ⟨hstart, hstuck⟩⟩ := ScansTo.exists_scansTo line source
  · rw [hread.scan_eq, scan_nil] at h
    cases h
    refine ⟨line', ?_⟩
    show ScansTo line source (tokens' ++ []) line' []
    rwa [List.append_nil]
  · rw [hread.scan_eq, scan_starts hstart, hstuck] at h
    cases h

theorem tokens_of_scansTo {line : Nat} {source : String} {ts : List Token}
    (h : ScansTo 1 source.toList ts line []) : tokens source = .ok ts := by
  rw [tokens, h.scan_eq, scan_nil]
  exact congrArg Except.ok (List.append_nil ts)

/-! ### Tiling -/

/-- The tokens and the blanks around them make up a text that begins on a line. A token has some text,
which ends on the line it begins on. -/
inductive Tiles : Nat → List Char → List Token → Prop where
  | blank {line : Nat} {gap : List Char} (hgap : Blank gap) : Tiles line gap []
  | token {line : Nat} {gap rest : List Char} {token : Token} {tokens : List Token}
      (hgap : Blank gap) (hline : token.line = line + gap.count '\n') (hsome : token.text ≠ [])
      (hbreak : '\n' ∉ token.text) (h : Tiles token.line rest tokens) :
      Tiles line (gap ++ (token.text ++ rest)) (token :: tokens)

theorem Blank.append {gap more : List Char} (hgap : Blank gap) (hmore : Blank more) :
    Blank (gap ++ more) :=
  List.forall_mem_append.mpr ⟨hgap, hmore⟩

theorem Tiles.gap {line : Nat} {gap source : List Char} {tokens : List Token} (hgap : Blank gap)
    (h : Tiles (line + gap.count '\n') source tokens) : Tiles line (gap ++ source) tokens := by
  cases h with
  | blank hmore => exact .blank (hgap.append hmore)
  | @token _ more rest token tokens hmore hline hsome hbreak h =>
      rw [← List.append_assoc]
      refine .token (hgap.append hmore) ?_ hsome hbreak h
      rw [hline, List.count_append, Nat.add_assoc]

/-- What was read is a text that its tokens tile, and the line breaks in it were counted. -/
theorem ScansTo.tiles {line line' : Nat} {source rest : List Char} {tokens : List Token}
    (h : ScansTo line source tokens line' rest) :
    ∃ above, source = above ++ rest ∧ line' = line + above.count '\n' ∧ Tiles line above tokens := by
  induction h with
  | stop => exact ⟨[], rfl, rfl, .blank (List.forall_mem_nil _)⟩
  | @gap line line' gap source rest tokens hgap _ ih =>
      obtain ⟨above, rfl, rfl, htiles⟩ := ih
      refine ⟨gap ++ above, (List.append_assoc ..).symm, ?_, htiles.gap hgap⟩
      rw [List.count_append, Nat.add_assoc]
  | @token line line' n kind source rest tokens hstart hfound _ ih =>
      obtain ⟨above, habove, rfl, htiles⟩ := ih
      have hbreak := newline_not_mem_lexeme hfound
      have hsome : source.take n ≠ [] := by
        obtain ⟨c, rest, rfl, -⟩ := hstart
        obtain ⟨m, rfl⟩ := Nat.exists_eq_add_one_of_ne_zero (lexeme?_pos hfound).ne'
        exact List.cons_ne_nil c _
      have htile := @Tiles.token line [] above ⟨kind, source.take n, line⟩ tokens
        (List.forall_mem_nil _) rfl hsome hbreak htiles
      refine ⟨source.take n ++ above, ?_, ?_, htile⟩
      · rw [List.append_assoc, ← habove, List.take_append_drop]
      · rw [List.count_append, List.count_eq_zero.mpr hbreak, Nat.zero_add]

/-- A token is on the line that the line breaks above it count, and the tokens before it tile the text
above it. -/
theorem Tiles.split {line : Nat} {source : List Char} {before after : List Token} {token : Token}
    (h : Tiles line source (before ++ token :: after)) :
    ∃ above below, source = above ++ (token.text ++ below) ∧ Tiles line above before ∧
      token.line = line + above.count '\n' := by
  induction before generalizing line source with
  | nil =>
      cases h with
      | token hgap hline hsome hbreak h => exact ⟨_, _, rfl, .blank hgap, hline⟩
  | cons first before ih =>
      cases h with
      | @token _ gap rest _ _ hgap hline hsome hbreak h =>
          obtain ⟨above, below, rfl, htiles, hcount⟩ := ih h
          refine ⟨gap ++ (first.text ++ above), below, ?_, .token hgap hline hsome hbreak htiles, ?_⟩
          · simp only [List.append_assoc]
          · rw [hcount, hline, List.count_append, List.count_append, List.count_eq_zero.mpr hbreak]
            omega

/-- The token stands in a text behind the tokens that are before it, on the line it says. -/
def StandsBehind (source : List Char) (before : List Token) (token : Token) : Prop :=
  ∃ above below, source = above ++ (token.text ++ below) ∧ Tiles 1 above before ∧
    token.line = 1 + above.count '\n'

theorem standsBehind_of_scan {source : List Char} {before after : List Token} {token : Token}
    (h : scan 1 source = .ok (before ++ token :: after)) : StandsBehind source before token := by
  obtain ⟨line', hread⟩ := scansTo_of_scan h
  obtain ⟨above, habove, -, htiles⟩ := hread.tiles
  rw [habove, List.append_nil]
  exact htiles.split

/-! ### Text put below -/

def Token.lower (lines : Nat) (t : Token) : Token :=
  { t with line := t.line + lines }

theorem ScansTo.lower {line line' : Nat} {source rest : List Char} {tokens : List Token}
    (h : ScansTo line source tokens line' rest) (lines : Nat) :
    ScansTo (line + lines) source (tokens.map (Token.lower lines)) (line' + lines) rest := by
  induction h with
  | stop => exact .stop
  | gap hgap _ ih =>
      rw [Nat.add_right_comm] at ih
      exact .gap hgap ih
  | token hstart hfound _ ih => exact .token hstart hfound ih

/-- A text below another one gives the same tokens further down, and those of the text above are as they
were. -/
theorem scan_append_line {line : Nat} {upper lower : List Char} {tokens₁ tokens₂ : List Token}
    (h₁ : scan line upper = .ok tokens₁) (h₂ : scan line lower = .ok tokens₂) :
    scan line (upper ++ '\n' :: lower) =
      .ok (tokens₁ ++ tokens₂.map (Token.lower (upper.count '\n' + 1))) := by
  obtain ⟨line', hupper⟩ := scansTo_of_scan h₁
  obtain ⟨line'', hlower⟩ := scansTo_of_scan h₂
  obtain ⟨above, habove, rfl, -⟩ := hupper.tiles
  have hbreak : Blank ['\n'] := List.forall_mem_singleton.mpr rfl
  rw [List.append_nil] at habove
  subst habove
  rw [(hupper.append_line lower).scan_eq, List.nil_append, ← List.singleton_append, scan_gap hbreak]
  have hmoved := (hlower.lower (upper.count '\n' + 1)).scan_eq
  rw [scan_nil] at hmoved
  rw [Nat.add_assoc, List.count_singleton_self, hmoved]
  show Except.ok (tokens₁ ++ (_ ++ [])) = _
  rw [List.append_nil]

end Brewhouse.Recipe
