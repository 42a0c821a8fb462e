import Brewhouse.Proofs.Recipe.Cutting
import Brewhouse.Proofs.Recipe.Joined
import Brewhouse.Proofs.Recipe.Meaning

/-!
Tokens each on a line of its own. Every token of a recipe is read the same when it stands by itself, and
a line break ends it; so the tokens put one below the other are the tokens of that text again. As the
grammar asks for kinds and texts only, a recipe means the same whether its tokens are glued together or
spread out.
-/

namespace Brewhouse.Recipe

/-! ### Tokens by themselves -/

/-- The text of the token is read as this token, and there is nothing else to it. -/
structure Recognised (t : Token) : Prop where
  starts : Starts t.text
  lexeme : lexeme? t.text = some (t.kind, t.text.length)

theorem recognised_of_lexeme? {text : List Char} {kind : TokenKind} {n : Nat} (hstart : Starts text)
    (h : lexeme? text = some (kind, n)) (line : Nat) : Recognised ⟨kind, text.take n, line⟩ := by
  have hle : n ≤ text.length := staysOnLine_lexeme?.length_le h
  refine ⟨?_, ?_⟩
  · obtain ⟨c, rest, rfl, hc⟩ := hstart
    obtain ⟨m, rfl⟩ := Nat.exists_eq_add_one_of_ne_zero (lexeme?_pos h).ne'
    exact ⟨c, rest.take m, rfl, hc⟩
  · dsimp only
    rw [List.length_take_of_le hle]
    exact lexeme?_take h

theorem ScansTo.recognised {line line' : Nat} {source rest : List Char} {tokens : List Token}
    (h : ScansTo line source tokens line' rest) : ∀ t ∈ tokens, Recognised t := by
  induction h with
  | stop => exact List.forall_mem_nil _
  | gap _ _ ih => exact ih
  | token hstart hfound _ ih =>
      exact List.forall_mem_cons.mpr ⟨recognised_of_lexeme? hstart hfound _, ih⟩

/-! ### Tokens one below the other -/

/-- The texts of the tokens, each on a line of its own. -/
def spread (tokens : List Token) : String :=
  "\n".intercalate (tokens.map fun t => String.ofList t.text)

def numbered (line : Nat) (tokens : List Token) : List Token :=
  tokens.mapIdx fun i t => { t with line := line + i }

theorem numbered_cons (line : Nat) (t : Token) (tokens : List Token) :
    numbered line (t :: tokens) = { t with line } :: numbered (line + 1) tokens := by
  unfold numbered
  rw [List.mapIdx_cons]
  simp only [Nat.add_zero, Nat.add_assoc, Nat.add_comm 1]

theorem toList_spread (tokens : List Token) :
    (spread tokens).toList = ['\n'].intercalate (tokens.map Token.text) := by
  rw [spread, String.toList_intercalate, List.map_map]
  simp only [Function.comp_def, String.toList_ofList]
  rfl

theorem Recognised.scan_append {t : Token} (h : Recognised t) (line : Nat) {below : List Char}
    (hbelow : below = [] ∨ ∃ rest, below = '\n' :: rest) :
    scan line (t.text ++ below) = (scan line below).map ({ t with line } :: ·) := by
  have hfound : lexeme? (t.text ++ below) = some (t.kind, t.text.length) := by
    rcases hbelow with rfl | ⟨rest, rfl⟩
    · rw [List.append_nil]
      exact h.lexeme
    · exact (staysOnLine_lexeme?.append_line t.text rest).trans h.lexeme
  rw [scan_starts (h.starts.append below), hfound]
  dsimp only
  rw [List.drop_left, List.take_left]

/-- Tokens put one below the other are read as they are, each on its line. -/
theorem scan_intercalate {tokens : List Token} (h : ∀ t ∈ tokens, Recognised t) (line : Nat) :
    scan line (['\n'].intercalate (tokens.map Token.text)) = .ok (numbered line tokens) := by
  induction tokens generalizing line with
  | nil => exact scan_nil line
  | cons t tokens ih =>
      obtain ⟨ht, htokens⟩ := List.forall_mem_cons.mp h
      rw [numbered_cons]
      cases tokens with
      | nil =>
          have hscan := ht.scan_append line (Or.inl rfl)
          rw [List.append_nil, scan_nil] at hscan
          rw [List.map_singleton, List.intercalate_singleton]
          exact hscan
      | cons u rest =>
          have hbreak : Blank ['\n'] := List.forall_mem_singleton.mpr rfl
          rw [List.map_cons, List.map_cons, List.intercalate_cons_cons, List.append_assoc,
            ht.scan_append line (Or.inr ⟨_, List.singleton_append⟩), scan_gap hbreak, List.count_singleton_self,
            ← List.map_cons, ih htokens]
          rfl

theorem tokens_spread {source : String} {ts : List Token} (h : tokens source = .ok ts) :
    tokens (spread ts) = .ok (numbered 1 ts) := by
  obtain ⟨line', hread⟩ := scansTo_of_scan h
  rw [tokens, toList_spread]
  exact scan_intercalate hread.recognised 1

/-! ### Without lines -/

/-- The token without the line it stands on; lines are counted from one. -/
def Token.unplaced (t : Token) : Token :=
  { t with line := 0 }

/-- The fault without the line it is found on. -/
def RecipeFault.unplaced : RecipeFault → RecipeFault
  | .unexpectedText _ text => .unexpectedText 0 text
  | .unexpectedToken _ text => .unexpectedToken 0 text
  | .valueOutOfRange _ text => .valueOutOfRange 0 text
  | .tooManyStatements _ => .tooManyStatements 0
  | fault => fault

theorem keepsMeaning_unplaced : KeepsMeaning Token.unplaced RecipeFault.unplaced where
  kind _ := rfl
  number _ := rfl
  unexpected _ := rfl
  outOfRange _ := rfl
  tooMany _ := rfl
  ended := rfl

/-- What a recipe means depends on the kinds and the texts of its tokens only. -/
theorem compile_unplaced {source : String} {ts : List Token} (h : tokens source = .ok ts) :
    (compile source).mapError RecipeFault.unplaced =
      (parse Script.capacity (ts.map Token.unplaced)).map Recipe.mk := by
  rw [compile_of_tokens h, keepsMeaning_unplaced.parse]
  cases parse Script.capacity ts <;> rfl

theorem numbered_unplaced (line : Nat) (ts : List Token) :
    (numbered line ts).map Token.unplaced = ts.map Token.unplaced := by
  induction ts generalizing line with
  | nil => rfl
  | cons t ts ih =>
      rw [numbered_cons, List.map_cons, List.map_cons, ih]
      rfl

theorem compile_spread_unplaced {source : String} {ts : List Token} (h : tokens source = .ok ts) :
    (compile (spread ts)).mapError RecipeFault.unplaced =
      (compile source).mapError RecipeFault.unplaced := by
  rw [compile_unplaced (tokens_spread h), numbered_unplaced, compile_unplaced h]

/-- The tokens of a recipe put one below the other are the tokens of that text, each on its line, and the
text has the same statements or is refused for the same cause. So do two recipes whose tokens have the
same texts, whatever stands between these. -/
theorem compile_spread {source : String} {ts : List Token} (h : tokens source = .ok ts) :
    tokens (spread ts) = .ok (ts.mapIdx fun i t => { t with line := 1 + i }) ∧
    (compile (spread ts)).mapError RecipeFault.unplaced =
      (compile source).mapError RecipeFault.unplaced ∧
    ∀ other ts', tokens other = .ok ts' → ts'.map Token.text = ts.map Token.text →
      ts'.map Token.kind = ts.map Token.kind ∧
      (compile other).mapError RecipeFault.unplaced =
        (compile source).mapError RecipeFault.unplaced := by
  refine ⟨tokens_spread h, compile_spread_unplaced h, fun other ts' hother htexts => ?_⟩
  have hspread : spread ts' = spread ts := by
    rw [← String.toList_inj, toList_spread, toList_spread, htexts]
  have hnumbered : numbered 1 ts' = numbered 1 ts :=
    Except.ok.inj ((tokens_spread hother).symm.trans (hspread ▸ tokens_spread h))
  refine ⟨?_, ?_⟩
  · have hunplaced : ts'.map Token.unplaced = ts.map Token.unplaced := by
      rw [← numbered_unplaced 1 ts', hnumbered, numbered_unplaced]
    have hkinds := congrArg (List.map Token.kind) hunplaced
    rwa [List.map_map, List.map_map] at hkinds
  · rw [← compile_spread_unplaced hother, hspread, compile_spread_unplaced h]

/-- A unit glued to its number is the unit with a space in front of it, or on a line of its own. -/
theorem compile_spread_of_glued_unit :
    tokens "heat 65C" =
      .ok [⟨.heat, ['h', 'e', 'a', 't'], 1⟩, ⟨.integer, ['6', '5'], 1⟩, ⟨.celsius, ['C'], 1⟩] ∧
    tokens "heat\n65\nC" =
      .ok [⟨.heat, ['h', 'e', 'a', 't'], 1⟩, ⟨.integer, ['6', '5'], 2⟩, ⟨.celsius, ['C'], 3⟩] ∧
    (compile "heat\n65\nC").mapError RecipeFault.unplaced =
      (compile "heat 65C").mapError RecipeFault.unplaced ∧
    (compile "heat 65 C").mapError RecipeFault.unplaced =
      (compile "heat 65C").mapError RecipeFault.unplaced := by
  have hspace : Blank [' '] := List.forall_mem_singleton.mpr rfl
  have hheat : ∀ rest, Starts ("heat".toList ++ rest) := fun rest => ⟨'h', _, rfl, rfl⟩
  have hglued : tokens "heat 65C" =
      .ok [⟨.heat, ['h', 'e', 'a', 't'], 1⟩, ⟨.integer, ['6', '5'], 1⟩, ⟨.celsius, ['C'], 1⟩] :=
    tokens_of_scansTo <|
      @ScansTo.token 1 1 4 .heat _ _ _ (hheat _) (by decide) <| .gap hspace <|
      @ScansTo.token 1 1 2 .integer _ _ _ ⟨'6', _, rfl, rfl⟩ (by decide) <|
      @ScansTo.token 1 1 1 .celsius _ _ _ ⟨'C', _, rfl, rfl⟩ (by decide) .stop
  have hapart : tokens "heat 65 C" =
      .ok [⟨.heat, ['h', 'e', 'a', 't'], 1⟩, ⟨.integer, ['6', '5'], 1⟩, ⟨.celsius, ['C'], 1⟩] :=
    tokens_of_scansTo <|
      @ScansTo.token 1 1 4 .heat _ _ _ (hheat _) (by decide) <| .gap hspace <|
      @ScansTo.token 1 1 2 .integer _ _ _ ⟨'6', _, rfl, rfl⟩ (by decide) <| .gap hspace <|
      @ScansTo.token 1 1 1 .celsius _ _ _ ⟨'C', _, rfl, rfl⟩ (by decide) .stop
  obtain ⟨htokens, hmeaning, hothers⟩ := compile_spread hglued
  exact ⟨hglued, htokens, hmeaning, (hothers _ _ hapart rfl).2⟩

end Brewhouse.Recipe
