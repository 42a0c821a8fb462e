import Brewhouse.Proofs.Recipe.Tiling

/-!
Tokens cut off from what follows them. A phrase that was turned down because a word goes on behind it, or
because it goes on past the token, is turned down in the token alone as well; so a token is read the same
when it stands by itself.
-/

namespace Brewhouse.Recipe

/-! ### Where a text may be cut -/

/-- The text does not end in a space or a tab. -/
def Solid (text : List Char) : Prop :=
  ∀ c ∈ text.getLast?, isGap c = false

def isForeign (c : Char) : Bool :=
  c.isDigit || c == ':'

/-- The text may be cut off in front of `below`: it is solid, and no phrase that matches all of it would
have been turned down for what stands behind it. -/
structure Severable (text below : List Char) : Prop where
  solid : Solid text
  closed : atBoundary below = true ∨ ∃ c ∈ text, isForeign c = true

theorem solid_nil : Solid [] := by
  rintro c ⟨⟩

theorem Solid.drop {text : List Char} (h : Solid text) (n : Nat) : Solid (text.drop n) := by
  intro c hc
  rw [List.getLast?_drop] at hc
  split at hc
  · cases hc
  · exact h c hc

theorem Solid.append {text : List Char} (h : Solid text) (hsome : text ≠ []) (above : List Char) :
    Solid (above ++ text) := by
  intro c hc
  rw [List.getLast?_append_of_ne_nil _ hsome] at hc
  exact h c hc

/-- Where a solid text ends no gap is cut. -/
theorem Solid.takeWhile_isGap {text : List Char} (h : Solid text) (hsome : text ≠ [])
    (below : List Char) : (text ++ below).takeWhile isGap = text.takeWhile isGap := by
  rw [List.takeWhile_append, if_neg]
  intro hlength
  have hall := (List.takeWhile_prefix isGap).eq_of_length hlength
  have hlast := List.takeWhile_eq_self_iff.mp hall _ (List.getLast_mem hsome)
  rw [h _ (List.getLast?_eq_some_getLast hsome)] at hlast
  cases hlast

theorem toLower_of_isForeign {c : Char} (h : isForeign c = true) : c.toLower = c := by
  refine dif_neg fun hcapital => ?_
  simp only [isForeign, Char.isDigit, Bool.or_eq_true, Bool.and_eq_true, decide_eq_true_eq,
    beq_iff_eq] at h
  rcases h with ⟨-, hdigit⟩ | rfl
  · have habsurd : 'A'.val ≤ '9'.val := UInt32.le_trans hcapital.1 hdigit
    exact absurd habsurd (by decide)
  · exact absurd hcapital.1 (by decide)

theorem toLower_of_isGap {c : Char} (h : isGap c = true) : c.toLower = c := by
  simp only [isGap, Bool.or_eq_true, beq_iff_eq] at h
  rcases h with rfl | rfl <;> rfl

/-! ### Phrases -/

/-- What a solid text matches of a phrase is what it matches with anything behind it, as far as the match
ends in the text. -/
theorem matchPhrase?_cut {text : List Char} (hsolid : Solid text) (phrase below : List Char) :
    matchPhrase? phrase text =
      (matchPhrase? phrase (text ++ below)).filter (· ≤ text.length) := by
  fun_induction matchPhrase? phrase text with
  | case1 text =>
      rw [matchPhrase?, Option.filter_some, if_pos (decide_eq_true (Nat.zero_le _))]
  | case2 phrase text gap hgap =>
      cases text with
      | nil =>
          refine (Option.filter_eq_none_iff.mpr fun n hn => ?_).symm
          simpa using (matchPhrase?_pos (List.cons_ne_nil _ _) hn).ne'
      | cons c text =>
          have hc : isGap c = false := by
            by_contra hc
            rw [Bool.not_eq_false] at hc
            simp [gap, hc] at hgap
          rw [List.cons_append, matchPhrase?, List.takeWhile_cons_of_neg (by simp [hc])]
          rfl
  | case3 phrase text gap hgap ih =>
      have hsome : text ≠ [] := by
        rintro rfl
        exact hgap rfl
      have hle : gap ≤ text.length := (List.takeWhile_prefix isGap).length_le
      rw [matchPhrase?, hsolid.takeWhile_isGap hsome]
      change _ = (if gap = 0 then none else _ : Option Nat).filter _
      rw [if_neg hgap, List.drop_append_of_le_length hle, ih (hsolid.drop gap), Option.filter_map]
      congr 2
      funext n
      rw [List.length_drop, Function.comp_apply]
      exact decide_eq_decide.mpr (by omega)
  | case4 expected phrase hspace =>
      refine (Option.filter_eq_none_iff.mpr fun n hn => ?_).symm
      simpa using (matchPhrase?_pos (List.cons_ne_nil _ _) hn).ne'
  | case5 phrase c text hspace ih =>
      rw [List.cons_append, matchPhrase?, if_pos rfl, ih (hsolid.drop 1), Option.filter_map]
      · congr 2
        funext n
        rw [List.length_cons, Function.comp_apply]
        exact decide_eq_decide.mpr (by omega)
      · exact hspace
  | case6 expected phrase c text hspace hexpected =>
      rw [List.cons_append, matchPhrase?, if_neg hexpected]
      · rfl
      · exact hspace

/-- No foreign character is matched by a phrase that has none. -/
theorem not_isForeign_of_matchPhrase? {phrase text : List Char}
    (hphrase : ∀ c ∈ phrase, isForeign c = false) :
    ∀ {n}, matchPhrase? phrase text = some n → ∀ c ∈ text.take n, isForeign c = false := by
  fun_induction matchPhrase? phrase text with
  | case1 text =>
      rintro _ ⟨⟩
      exact List.forall_mem_nil _
  | case2 | case4 | case6 => rintro _ ⟨⟩
  | case3 phrase text gap _ ih =>
      intro n h
      obtain ⟨m, hm, rfl⟩ := Option.map_eq_some_iff.mp h
      rw [List.take_add, List.forall_mem_append]
      refine ⟨fun c hc => ?_, ih (List.forall_mem_cons.mp hphrase).2 hm⟩
      rw [← List.prefix_iff_eq_take.mp (List.takeWhile_prefix isGap)] at hc
      have hgap := List.mem_takeWhile_imp hc
      simp only [isGap, Bool.or_eq_true, beq_iff_eq] at hgap
      rcases hgap with rfl | rfl <;> rfl
  | case5 phrase c text hspace ih =>
      intro n h
      obtain ⟨m, hm, rfl⟩ := Option.map_eq_some_iff.mp h
      obtain ⟨hc, hphrase⟩ := List.forall_mem_cons.mp hphrase
      rw [Nat.add_comm, List.take_succ_cons, List.forall_mem_cons]
      refine ⟨?_, ih hphrase hm⟩
      by_contra hforeign
      rw [Bool.not_eq_false] at hforeign
      rw [toLower_of_isForeign hforeign, hforeign] at hc
      cases hc

theorem take_ne_nil_of_matchPhrase? {phrase text : List Char} {n : Nat} (hsome : phrase ≠ [])
    (h : matchPhrase? phrase text = some n) : text.take n ≠ [] := by
  have hpos := matchPhrase?_pos hsome h
  have htext : text ≠ [] := by
    rintro rfl
    rw [matchPhrase?_cut solid_nil phrase []] at h
    have hle := (Option.filter_eq_some_iff.mp h).2
    simp [hpos.ne'] at hle
  rw [Ne, List.take_eq_nil_iff, not_or]
  exact ⟨hpos.ne', htext⟩

/-- A phrase that is solid matches a solid text. -/
theorem solid_of_matchPhrase? {phrase text : List Char} (hphrase : Solid phrase) :
    ∀ {n}, matchPhrase? phrase text = some n → Solid (text.take n) := by
  fun_induction matchPhrase? phrase text with
  | case1 text =>
      rintro _ ⟨⟩
      exact solid_nil
  | case2 | case4 | case6 => rintro _ ⟨⟩
  | case3 phrase text gap _ ih =>
      intro n h
      obtain ⟨m, hm, rfl⟩ := Option.map_eq_some_iff.mp h
      have hsome : phrase ≠ [] := by
        rintro rfl
        cases hphrase ' ' rfl
      rw [List.take_add]
      exact (ih (hphrase.drop 1) hm).append (take_ne_nil_of_matchPhrase? hsome hm) _
  | case5 phrase c text hspace ih =>
      intro n h
      obtain ⟨m, hm, rfl⟩ := Option.map_eq_some_iff.mp h
      rw [Nat.add_comm, List.take_succ_cons]
      by_cases hsome : phrase = []
      · subst hsome
        cases hm
        have hlast : isGap c.toLower = false := hphrase _ rfl
        rintro _ ⟨⟩
        by_contra hgap
        rw [Bool.not_eq_false] at hgap
        change isGap c = true at hgap
        rw [toLower_of_isGap hgap, hgap] at hlast
        cases hlast
      · exact (ih (hphrase.drop 1) hm).append (take_ne_nil_of_matchPhrase? hsome hm) [c]

/-! ### Words -/

/-- A phrase that can be told apart from what may follow it: it has text, does not end in a space, and has
no digits and no colons. -/
structure IsWord (phrase : String) : Prop where
  hasText : phrase.toList ≠ []
  solid : Solid phrase.toList
  plain : ∀ c ∈ phrase.toList, isForeign c = false

theorem isWord_iff {phrase : String} : IsWord phrase ↔ phrase.toList ≠ [] ∧
    (phrase.toList.getLast?.all fun c => !isGap c) = true ∧
    (phrase.toList.all fun c => !isForeign c) = true := by
  simp only [Option.all_eq_true, List.all_eq_true, Bool.not_eq_true']
  exact ⟨fun h => ⟨h.hasText, h.solid, h.plain⟩, fun h => ⟨h.1, h.2.1, h.2.2⟩⟩

instance (phrase : String) : Decidable (IsWord phrase) :=
  decidable_of_iff' _ isWord_iff

theorem head?_drop_append {n : Nat} {text : List Char} (hn : n < text.length) (below : List Char) :
    ((text ++ below).drop n).head? = (text.drop n).head? := by
  rw [List.drop_append_of_le_length hn.le, List.head?_append_of_ne_nil]
  rw [Ne, List.drop_eq_nil_iff]
  omega

/-- Where a match ends in a text that may be cut off, a word ends in front of the cut if it does without
the cut. -/
theorem atBoundary_cut {text below : List Char} (h : Severable text below) {phrase : String}
    (hphrase : IsWord phrase) {n : Nat} (hn : n ≤ text.length)
    (hmatch : matchPhrase? phrase.toList (text ++ below) = some n) :
    atBoundary (text.drop n) = atBoundary ((text ++ below).drop n) := by
  rcases hn.lt_or_eq with hlt | rfl
  · unfold atBoundary
    rw [head?_drop_append hlt]
  · rw [List.drop_length, List.drop_left]
    rcases h.closed with hboundary | ⟨c, hc, hforeign⟩
    · rw [hboundary]
      rfl
    · have hplain := not_isForeign_of_matchPhrase? hphrase.plain hmatch
      rw [List.take_left] at hplain
      rw [hplain c hc] at hforeign
      cases hforeign

theorem matchWord?_cut {text below : List Char} (h : Severable text below) {phrase : String}
    (hphrase : IsWord phrase) :
    matchWord? text phrase = (matchWord? (text ++ below) phrase).filter (· ≤ text.length) := by
  refine Option.ext fun n => ?_
  simp only [matchWord?, matchPhrase?_cut h.solid phrase.toList below, Option.filter_eq_some_iff,
    decide_eq_true_eq]
  constructor
  · rintro ⟨⟨hmatch, hle⟩, hboundary⟩
    exact ⟨⟨hmatch, atBoundary_cut h hphrase hle hmatch ▸ hboundary⟩, hle⟩
  · rintro ⟨⟨hmatch, hboundary⟩, hle⟩
    exact ⟨⟨hmatch, hle⟩, (atBoundary_cut h hphrase hle hmatch).trans hboundary⟩

/-! ### What is found in a text that is cut off -/

variable {α β γ : Type} {length : α → Nat} {length' : β → Nat} {find? : List Char → Option α}

/-- What is found ends where the text may be cut off, and is found in what is cut off as well; and where
nothing is found, nothing is found in a part that may be cut off. -/
structure StandsAlone (length : α → Nat) (find? : List Char → Option α) : Prop where
  severable : ∀ {text found}, find? text = some found →
    Severable (text.take (length found)) (text.drop (length found))
  found : ∀ {text below found}, Severable text below → find? (text ++ below) = some found →
    length found ≤ text.length → find? text = some found
  missed : ∀ {text below}, Severable text below → find? (text ++ below) = none → find? text = none

theorem standsAlone_matchWord? {phrase : String} (hphrase : IsWord phrase) :
    StandsAlone id (matchWord? · phrase) where
  severable := by
    intro text n h
    obtain ⟨hmatch, hboundary⟩ := Option.filter_eq_some_iff.mp h
    exact ⟨solid_of_matchPhrase? hphrase.solid hmatch, Or.inl hboundary⟩
  found := by
    intro text below n hcut h hle
    rw [matchWord?_cut hcut hphrase, h]
    exact if_pos (decide_eq_true hle)
  missed := by
    intro text below hcut h
    rw [matchWord?_cut hcut hphrase, h]
    rfl

theorem StandsAlone.map (h : StandsAlone length find?) {f : α → β}
    (hf : ∀ found, length' (f found) = length found) :
    StandsAlone length' fun text => (find? text).map f where
  severable := by
    intro text result hresult
    obtain ⟨found, hfound, rfl⟩ := Option.map_eq_some_iff.mp hresult
    rw [hf]
    exact h.severable hfound
  found := by
    intro text below result hcut hresult hle
    obtain ⟨found, hfound, rfl⟩ := Option.map_eq_some_iff.mp hresult
    rw [hf] at hle
    rw [h.found hcut hfound hle, Option.map_some]
  missed := by
    intro text below hcut hnone
    rw [h.missed hcut (Option.map_eq_none_iff.mp hnone), Option.map_none]

theorem StandsAlone.or {other? : List Char → Option α} (h : StandsAlone length find?)
    (hother : StandsAlone length other?) :
    StandsAlone length fun text => (find? text).or (other? text) where
  severable := by
    intro text found hfound
    rcases Option.or_eq_some_iff.mp hfound with hfound | ⟨-, hfound⟩
    · exact h.severable hfound
    · exact hother.severable hfound
  found := by
    intro text below found hcut hfound hle
    rcases Option.or_eq_some_iff.mp hfound with hfound | ⟨hnone, hfound⟩
    · rw [h.found hcut hfound hle, Option.some_or]
    · rw [h.missed hcut hnone, Option.none_or, hother.found hcut hfound hle]
  missed := by
    intro text below hcut hnone
    obtain ⟨hfirst, hsecond⟩ := Option.or_eq_none_iff.mp hnone
    rw [h.missed hcut hfirst, hother.missed hcut hsecond, Option.or_none]

theorem StandsAlone.findSome? {entries : List γ} {find? : γ → List Char → Option α}
    (h : ∀ entry ∈ entries, StandsAlone length (find? entry)) :
    StandsAlone length fun text => entries.findSome? (find? · text) := by
  induction entries with
  | nil => exact ⟨by rintro _ _ ⟨⟩, by rintro _ _ _ - ⟨⟩, fun _ _ => rfl⟩
  | cons entry entries ih =>
      obtain ⟨hentry, hentries⟩ := List.forall_mem_cons.mp h
      have hor := hentry.or (ih hentries)
      have hcons : ∀ text, (entry :: entries).findSome? (find? · text) =
          (find? entry text).or (entries.findSome? (find? · text)) := by
        intro text
        rw [List.findSome?_cons]
        cases find? entry text <;> rfl
      simpa only [hcons] using hor

theorem StandsAlone.withColon {find? : List Char → Option (TokenKind × Nat)}
    (h : StandsAlone Prod.snd find?) :
    StandsAlone Prod.snd fun text => (find? text).map (withColon text) where
  severable := by
    intro text result hresult
    obtain ⟨found, hfound, rfl⟩ := Option.map_eq_some_iff.mp hresult
    unfold Recipe.withColon
    split
    · next hcolon =>
      have htake : text.take (found.2 + 1) = text.take found.2 ++ [':'] := by
        rw [List.take_add_one, ← List.head?_drop, hcolon]
        rfl
      have hsolid : Solid [':'] := by
        rintro c ⟨⟩
        rfl
      refine ⟨?_, Or.inr ⟨':', ?_, rfl⟩⟩
      · exact htake ▸ hsolid.append (List.cons_ne_nil _ _) _
      · exact htake ▸ List.mem_append_right _ List.mem_cons_self
    · exact h.severable hfound
  found := by
    intro text below result hcut hresult hle
    obtain ⟨found, hfound, rfl⟩ := Option.map_eq_some_iff.mp hresult
    unfold Recipe.withColon at hle ⊢
    split at hle
    · next hcolon =>
      have hlt : found.2 < text.length := hle
      rw [head?_drop_append hlt] at hcolon
      rw [h.found hcut hfound hlt.le, Option.map_some, if_pos hcolon, head?_drop_append hlt,
        if_pos hcolon]
    · next hcolon =>
      have hnone : (text.drop found.2).head? ≠ some ':' := by
        intro hhead
        rw [head?_drop_append (lt_length_of_head?_drop hhead)] at hcolon
        exact hcolon hhead
      rw [h.found hcut hfound hle, Option.map_some, if_neg hcolon, if_neg hnone]
  missed := by
    intro text below hcut hnone
    rw [h.missed hcut (Option.map_eq_none_iff.mp hnone), Option.map_none]

/-- Past a phrase that matches its beginning, a text may still be cut off where it may. -/
theorem Severable.drop {text below phrase : List Char} {n : Nat} (h : Severable text below)
    (hphrase : ∀ c ∈ phrase, isForeign c = false) (hmatch : matchPhrase? phrase text = some n) :
    Severable (text.drop n) below := by
  refine ⟨h.solid.drop n, h.closed.imp_right ?_⟩
  rintro ⟨c, hc, hforeign⟩
  refine ⟨c, ?_, hforeign⟩
  rw [← List.take_append_drop n text, List.mem_append] at hc
  refine hc.resolve_left fun hmatched => ?_
  rw [not_isForeign_of_matchPhrase? hphrase hmatch c hmatched] at hforeign
  cases hforeign

/-- What is found behind a phrase. -/
theorem StandsAlone.behind {phrase : List Char} (hphrase : ∀ c ∈ phrase, isForeign c = false)
    {find? : List Char → Option (TokenKind × Nat)} (h : StandsAlone Prod.snd find?)
    (hsome : ∀ {text found}, find? text = some found → text.take found.2 ≠ []) :
    StandsAlone Prod.snd fun text =>
      (matchPhrase? phrase text).bind fun skipped =>
        (find? (text.drop skipped)).map fun found => (found.1, skipped + found.2) where
  severable := by
    intro text result hresult
    obtain ⟨skipped, -, hresult⟩ := Option.bind_eq_some_iff.mp hresult
    obtain ⟨found, hfound, rfl⟩ := Option.map_eq_some_iff.mp hresult
    obtain ⟨hsolid, hclosed⟩ := h.severable hfound
    dsimp only
    rw [List.take_add, ← List.drop_drop]
    refine ⟨hsolid.append (hsome hfound) _, hclosed.imp_right ?_⟩
    rintro ⟨c, hc, hforeign⟩
    exact ⟨c, List.mem_append_right _ hc, hforeign⟩
  found := by
    intro text below result hcut hresult hle
    obtain ⟨skipped, hskipped, hresult⟩ := Option.bind_eq_some_iff.mp hresult
    obtain ⟨found, hfound, rfl⟩ := Option.map_eq_some_iff.mp hresult
    have hlong : skipped + found.2 ≤ text.length := hle
    have hskip : matchPhrase? phrase text = some skipped := by
      rw [matchPhrase?_cut hcut.solid phrase below, hskipped, Option.filter_some, if_pos]
      exact decide_eq_true (by omega)
    rw [List.drop_append_of_le_length (by omega)] at hfound
    have hrest : found.2 ≤ (text.drop skipped).length := by
      rw [List.length_drop]
      omega
    rw [hskip, Option.bind_some, h.found (hcut.drop hphrase hskip) hfound hrest, Option.map_some]
  missed := by
    intro text below hcut hnone
    cases hskip : matchPhrase? phrase text with
    | none => rfl
    | some skipped =>
        have hwhole := hskip
        rw [matchPhrase?_cut hcut.solid phrase below, Option.filter_eq_some_iff] at hwhole
        obtain ⟨hskipped, hle⟩ := hwhole
        simp only [hskipped, Option.bind_some, Option.map_eq_none_iff] at hnone
        rw [List.drop_append_of_le_length (of_decide_eq_true hle)] at hnone
        rw [Option.bind_some, h.missed (hcut.drop hphrase hskip) hnone, Option.map_none]

/-! ### Keywords, scales and units -/

theorem keywords_areWords : ∀ entry ∈ keywords, ∀ phrase ∈ entry.phrases, IsWord phrase := by
  decide

theorem scales_areWords : ∀ entry ∈ scales, ∀ phrase ∈ entry.phrases, IsWord phrase := by
  decide

theorem units_areWords : ∀ entry ∈ units, ∀ phrase ∈ entry.phrases, IsWord phrase := by
  decide

theorem degreeWords_plain : ∀ word ∈ degreeWords, ∀ c ∈ word.toList, isForeign c = false := by
  have hall : ∀ word ∈ degreeWords, (word.toList.all fun c => !isForeign c) = true := by decide
  simpa only [List.all_eq_true, Bool.not_eq_true'] using hall

theorem standsAlone_matchFirst? {entries : List Entry}
    (h : ∀ entry ∈ entries, ∀ phrase ∈ entry.phrases, IsWord phrase) :
    StandsAlone Prod.snd (matchFirst? · entries) :=
  StandsAlone.findSome? fun entry hentry =>
    (StandsAlone.findSome? fun phrase hphrase =>
      standsAlone_matchWord? (h entry hentry phrase hphrase)).map fun _ => rfl

theorem take_ne_nil_of_matchFirst? {entries : List Entry}
    (h : ∀ entry ∈ entries, ∀ phrase ∈ entry.phrases, IsWord phrase) {text : List Char}
    {found : TokenKind × Nat} (hfound : matchFirst? text entries = some found) :
    text.take found.2 ≠ [] := by
  obtain ⟨entry, hentry, hfound⟩ := List.exists_of_findSome?_eq_some hfound
  obtain ⟨n, hn, rfl⟩ := Option.map_eq_some_iff.mp hfound
  obtain ⟨phrase, hphrase, hword⟩ := List.exists_of_findSome?_eq_some hn
  exact take_ne_nil_of_matchPhrase? (h entry hentry phrase hphrase).hasText
    (Option.filter_eq_some_iff.mp hword).1

theorem standsAlone_matchScale? : StandsAlone Prod.snd matchScale? :=
  StandsAlone.findSome? fun scale hscale => StandsAlone.findSome? fun word hword =>
    have hwords := List.forall_mem_singleton.mpr (scales_areWords scale hscale)
    (standsAlone_matchFirst? hwords).behind (degreeWords_plain word hword)
      (take_ne_nil_of_matchFirst? hwords)

/-! ### Numbers -/

theorem solid_of_forall {text : List Char} (h : ∀ c ∈ text, isGap c = false) : Solid text :=
  fun c hc => h c (List.mem_of_getLast? hc)

theorem isGap_of_isDigit {c : Char} (h : c.isDigit = true) : isGap c = false := by
  by_contra hgap
  rw [Bool.not_eq_false] at hgap
  simp only [isGap, Bool.or_eq_true, beq_iff_eq] at hgap
  rcases hgap with rfl | rfl <;> cases h

/-- Characters that are taken up to a cut at most are taken from the text alone. -/
theorem takeWhile_of_length_le {p : Char → Bool} {text : List Char} (below : List Char)
    (h : ((text ++ below).takeWhile p).length ≤ text.length) :
    text.takeWhile p = (text ++ below).takeWhile p := by
  rw [List.takeWhile_append] at h ⊢
  split
  · next hall =>
    rw [if_pos hall, List.length_append] at h
    have hnone : below.takeWhile p = [] := List.eq_nil_of_length_eq_zero (by omega)
    rw [hnone, List.append_nil]
    exact (List.takeWhile_prefix p).eq_of_length hall
  · rfl

theorem signLength_append {text : List Char} (hsome : text ≠ []) (below : List Char) :
    signLength (text ++ below) = signLength text := by
  unfold signLength
  rw [List.head?_append_of_ne_nil _ hsome]

theorem wholeLength_cut {text : List Char} (hsome : text ≠ []) (below : List Char)
    (h : wholeLength (text ++ below) ≤ text.length) :
    wholeLength text = wholeLength (text ++ below) := by
  unfold wholeLength at h ⊢
  rw [signLength_append hsome, List.drop_append_of_le_length (signLength_le text)] at h ⊢
  rw [takeWhile_of_length_le below]
  rw [List.length_drop]
  omega

theorem take_wholeLength (text : List Char) :
    text.take (wholeLength text) =
      text.take (signLength text) ++ (text.drop (signLength text)).takeWhile Char.isDigit := by
  rw [wholeLength, List.take_add, ← List.prefix_iff_eq_take.mp (List.takeWhile_prefix _)]

theorem take_fraction {text : List Char} (hpoint : (text.drop (wholeLength text)).head? = some '.') :
    text.take (wholeLength text + 1 +
      ((text.drop (wholeLength text + 1)).takeWhile Char.isDigit).length) =
        text.take (wholeLength text) ++
          '.' :: (text.drop (wholeLength text + 1)).takeWhile Char.isDigit := by
  rw [List.take_add, List.take_add_one, ← List.head?_drop, hpoint,
    ← List.prefix_iff_eq_take.mp (List.takeWhile_prefix _), List.append_assoc]
  rfl

/-- A number with digits in front of its point ends in a digit or in the point. -/
theorem severable_number {text : List Char} (hdigits : wholeLength text ≠ signLength text)
    {fraction : List Char} (hfraction : ∀ c ∈ fraction, c = '.' ∨ c.isDigit = true)
    (below : List Char) : Severable (text.take (wholeLength text) ++ fraction) below := by
  have hall : ∀ c ∈ (text.drop (signLength text)).takeWhile Char.isDigit, c.isDigit = true :=
    fun c hc => List.mem_takeWhile_imp hc
  have hsome : (text.drop (signLength text)).takeWhile Char.isDigit ≠ [] := by
    intro hnone
    rw [wholeLength, hnone] at hdigits
    exact hdigits rfl
  rw [take_wholeLength, List.append_assoc]
  refine ⟨(solid_of_forall ?_).append (List.append_ne_nil_of_left_ne_nil hsome _) _, Or.inr ?_⟩
  · refine List.forall_mem_append.mpr ⟨fun c hc => isGap_of_isDigit (hall c hc), fun c hc => ?_⟩
    rcases hfraction c hc with rfl | hdigit
    · rfl
    · exact isGap_of_isDigit hdigit
  · obtain ⟨c, hc⟩ := List.exists_mem_of_ne_nil _ hsome
    refine ⟨c, List.mem_append_right _ (List.mem_append_left _ hc), ?_⟩
    rw [isForeign, hall c hc, Bool.true_or]

theorem standsAlone_matchNumber? : StandsAlone Prod.snd matchNumber? where
  severable := by
    intro text found h
    rw [matchNumber?_eq] at h
    split at h
    · cases h
    next hdigits =>
    split at h
    · next hpoint =>
      cases h
      dsimp only
      rw [take_fraction hpoint]
      refine severable_number hdigits (List.forall_mem_cons.mpr ⟨Or.inl rfl, fun c hc => ?_⟩) _
      exact Or.inr (List.mem_takeWhile_imp hc)
    · cases h
      have hsever := severable_number hdigits (List.forall_mem_nil _) (text.drop (wholeLength text))
      rwa [List.append_nil] at hsever
  found := by
    intro text below found _ h hle
    have hsome : text ≠ [] := by
      rintro rfl
      exact absurd hle (matchNumber?_pos h).not_ge
    rw [matchNumber?_eq] at h
    rw [matchNumber?_eq]
    split at h
    · cases h
    next hdigits =>
    split at h
    · next hpoint =>
      cases h
      dsimp only at hle
      have hwhole := wholeLength_cut hsome below (by omega)
      rw [← hwhole] at hdigits hpoint hle ⊢
      rw [signLength_append hsome] at hdigits
      rw [head?_drop_append (by omega)] at hpoint
      rw [if_neg hdigits, if_pos hpoint, takeWhile_of_length_le below]
      · rw [List.drop_append_of_le_length (by omega)]
      · rw [List.drop_append_of_le_length (by omega)] at hle
        rw [List.length_drop]
        omega
    · next hpoint =>
      cases h
      have hwhole := wholeLength_cut hsome below hle
      rw [← hwhole] at hdigits hpoint ⊢
      rw [signLength_append hsome] at hdigits
      rw [if_neg hdigits, if_neg]
      intro hhead
      rw [head?_drop_append (lt_length_of_head?_drop hhead)] at hpoint
      exact hpoint hhead
  missed := by
    intro text below _ h
    rw [matchNumber?_eq] at h ⊢
    split at h
    · next hdigits =>
      rw [if_pos]
      by_cases hsome : text = []
      · rw [hsome]
        rfl
      · rw [← signLength_append hsome below, ← hdigits]
        refine wholeLength_cut hsome below ?_
        rw [hdigits, signLength_append hsome]
        exact signLength_le text
    · split at h <;> cases h

/-! ### Tokens -/

theorem standsAlone_lexeme? : StandsAlone Prod.snd lexeme? :=
  (standsAlone_matchFirst? keywords_areWords).withColon.or <|
    standsAlone_matchNumber?.or <|
      standsAlone_matchScale?.or (standsAlone_matchFirst? units_areWords).withColon

/-- A token is read the same when it stands by itself. -/
theorem lexeme?_take {text : List Char} {kind : TokenKind} {n : Nat}
    (h : lexeme? text = some (kind, n)) : lexeme? (text.take n) = some (kind, n) := by
  have hcut : Severable (text.take n) (text.drop n) := standsAlone_lexeme?.severable h
  have hle : n ≤ text.length := staysOnLine_lexeme?.length_le h
  rw [← List.take_append_drop n text] at h
  refine standsAlone_lexeme?.found hcut h ?_
  rw [List.length_take_of_le hle]

end Brewhouse.Recipe
