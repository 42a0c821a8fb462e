import Brewhouse.Text.Characters

/-!
Recognising the token at the beginning of a text. A match is a number of characters. Phrases match
without regard to the case of ASCII letters, a space in a phrase stands for any run of spaces and
tabs, and a word has to end where no letter or number follows.
-/

namespace Brewhouse.Recipe

/-! ### Tokens -/

inductive TokenKind where
  | mashVolume
  | initialise
  | mashing
  | sparging
  | heat
  | hold
  | pause
  | duration
  | decimal
  | integer
  | celsius
  | fahrenheit
  | millilitres
  | litres
  | milliseconds
  | seconds
  | minutes
  | hours
  deriving DecidableEq, Repr

/-- A token with its text as written and the line it stands on, counted from one. -/
structure Token where
  kind : TokenKind
  text : List Char
  line : Nat
  deriving DecidableEq, Repr

/-! ### The words of the language

The phrases of a kind are tried in the order given, longer ones first, and so are the kinds. -/

/-- A kind of token and the phrases that stand for it. -/
structure Entry where
  kind : TokenKind
  phrases : List String

def keywords : List Entry :=
  [⟨.mashVolume,
      ["mash water volume", "mash water vol.", "mash water vol", "mash volume", "mash vol.",
        "mash vol", "water volume", "water vol.", "water vol", "volume", "vol.", "vol"]⟩,
    ⟨.initialise, ["initialization", "initialisation", "initialize", "initialise"]⟩,
    ⟨.mashing, ["mashing", "mash"]⟩,
    ⟨.sparging, ["sparging", "sparge"]⟩,
    ⟨.heat, ["heat to", "heat"]⟩,
    ⟨.hold, ["hold at", "hold"]⟩,
    ⟨.pause, ["pause", "wait"]⟩,
    ⟨.duration, ["for"]⟩]

/-- What may stand between a number and the name of a temperature scale. -/
def degreeWords : List String :=
  ["degrees ", "degree ", "deg. ", "deg ", "°", ""]

def scales : List Entry :=
  [⟨.celsius, ["centigrade", "celsius", "c"]⟩, ⟨.fahrenheit, ["fahrenheit", "f"]⟩]

def units : List Entry :=
  [⟨.millilitres, ["milliliters", "millilitres", "milliliter", "millilitre", "ml"]⟩,
    ⟨.litres, ["liters", "litres", "liter", "litre", "l"]⟩,
    ⟨.milliseconds, ["milliseconds", "millisecond", "ms"]⟩,
    ⟨.seconds, ["seconds", "second", "secs", "sec", "s"]⟩,
    ⟨.minutes, ["minutes", "minute", "mins", "min", "m"]⟩,
    ⟨.hours, ["hours", "hour", "h"]⟩]

/-! ### Matching -/

/-- The spaces and tabs that a space in a phrase stands for. -/
def isGap (c : Char) : Bool :=
  c == ' ' || c == '\t'

/-- How much of the text the phrase matches. -/
def matchPhrase? : List Char → List Char → Option Nat
  | [], _ => some 0
  | ' ' :: phrase, text =>
    let gap := (text.takeWhile isGap).length
    if gap = 0 then none else (matchPhrase? phrase (text.drop gap)).map (gap + ·)
  | _ :: _, [] => none
  | expected :: phrase, c :: text =>
    if c.toLower = expected then (matchPhrase? phrase text).map (1 + ·) else none

/-- Whether a word may end in front of the text. -/
def atBoundary (text : List Char) : Bool :=
  !(text.head?.any Text.isAlphanumeric)

/-- How much of the text a phrase matches that has to end a word. -/
def matchWord? (text : List Char) (phrase : String) : Option Nat :=
  (matchPhrase? phrase.toList text).filter fun n => atBoundary (text.drop n)

def matchFirst? (text : List Char) (entries : List Entry) : Option (TokenKind × Nat) :=
  entries.findSome? fun entry =>
    (entry.phrases.findSome? (matchWord? text)).map fun n => (entry.kind, n)

/-- A keyword or a unit may have a colon behind it. -/
def withColon (text : List Char) (found : TokenKind × Nat) : TokenKind × Nat :=
  if (text.drop found.2).head? = some ':' then (found.1, found.2 + 1) else found

/-- How many characters the sign in front of a number takes. -/
def signLength (text : List Char) : Nat :=
  if text.head? = some '-' ∨ text.head? = some '+' then 1 else 0

/-- A number: a sign, digits, and a point with further digits; all but the digits may be missing.
A number with a point is a decimal. -/
def matchNumber? (text : List Char) : Option (TokenKind × Nat) :=
  let sign := signLength text
  let whole := ((text.drop sign).takeWhile Char.isDigit).length
  if whole = 0 then none
  else
    let rest := text.drop (sign + whole)
    if rest.head? = some '.' then
      some (.decimal, sign + whole + 1 + ((rest.drop 1).takeWhile Char.isDigit).length)
    else some (.integer, sign + whole)

/-- A temperature scale with the degree words in front of it. The scales are tried in turn, each
with all degree words. -/
def matchScale? (text : List Char) : Option (TokenKind × Nat) :=
  scales.findSome? fun scale =>
    degreeWords.findSome? fun word =>
      (matchPhrase? word.toList text).bind fun skipped =>
        (matchFirst? (text.drop skipped) [scale]).map fun found => (found.1, skipped + found.2)

/-- The token at the beginning of the text: a keyword, a number, a temperature scale or a unit, in
this order. -/
def lexeme? (text : List Char) : Option (TokenKind × Nat) :=
  ((matchFirst? text keywords).map (withColon text)).or <|
    (matchNumber? text).or <|
      (matchScale? text).or <|
        (matchFirst? text units).map (withColon text)

/-! ### Tokens are not empty -/

theorem matchPhrase?_pos {phrase text : List Char} {n : Nat} (hne : phrase ≠ [])
    (h : matchPhrase? phrase text = some n) : 0 < n := by
  unfold matchPhrase? at h
  split at h
  · exact absurd rfl hne
  · dsimp only at h
    split at h
    · simp at h
    · obtain ⟨m, -, rfl⟩ := Option.map_eq_some_iff.1 h
      omega
  · simp at h
  · split at h
    · obtain ⟨m, -, rfl⟩ := Option.map_eq_some_iff.1 h
      omega
    · simp at h

/-- Whether no phrase of the entries is empty. -/
def Entry.HasText (entry : Entry) : Prop :=
  ∀ phrase ∈ entry.phrases, phrase.toList ≠ []

theorem matchFirst?_pos {text : List Char} {entries : List Entry}
    (hne : ∀ entry ∈ entries, entry.HasText) {found : TokenKind × Nat}
    (h : matchFirst? text entries = some found) : 0 < found.2 := by
  obtain ⟨entry, hentry, h⟩ := List.exists_of_findSome?_eq_some h
  obtain ⟨n, hn, rfl⟩ := Option.map_eq_some_iff.1 h
  obtain ⟨phrase, hphrase, hn⟩ := List.exists_of_findSome?_eq_some hn
  exact matchPhrase?_pos (hne entry hentry phrase hphrase) (Option.filter_eq_some_iff.1 hn).1

theorem withColon_pos {text : List Char} {found : TokenKind × Nat} (h : 0 < found.2) :
    0 < (withColon text found).2 := by
  unfold withColon
  split
  · exact Nat.succ_pos _
  · exact h

theorem keywords_haveText : ∀ entry ∈ keywords, entry.HasText := by
  simp [keywords, Entry.HasText]

theorem scales_haveText : ∀ entry ∈ scales, entry.HasText := by
  simp [scales, Entry.HasText]

theorem units_haveText : ∀ entry ∈ units, entry.HasText := by
  simp [units, Entry.HasText]

theorem matchNumber?_pos {text : List Char} {found : TokenKind × Nat}
    (h : matchNumber? text = some found) : 0 < found.2 := by
  unfold matchNumber? at h
  dsimp only at h
  split at h
  · simp at h
  · split at h <;> · obtain rfl := Option.some.inj h; dsimp only; omega

theorem matchScale?_pos {text : List Char} {found : TokenKind × Nat}
    (h : matchScale? text = some found) : 0 < found.2 := by
  obtain ⟨scale, hscale, h⟩ := List.exists_of_findSome?_eq_some h
  obtain ⟨word, -, h⟩ := List.exists_of_findSome?_eq_some h
  obtain ⟨skipped, -, h⟩ := Option.bind_eq_some_iff.1 h
  obtain ⟨inner, hinner, rfl⟩ := Option.map_eq_some_iff.1 h
  have := matchFirst?_pos (by simpa using scales_haveText scale hscale) hinner
  dsimp only
  omega

/-- A token has at least one character. -/
theorem lexeme?_pos {text : List Char} {found : TokenKind × Nat}
    (h : lexeme? text = some found) : 0 < found.2 := by
  simp only [lexeme?, Option.or_eq_some_iff, Option.map_eq_some_iff] at h
  rcases h with ⟨inner, h, rfl⟩ | ⟨-, h | ⟨-, h | ⟨-, inner, h, rfl⟩⟩⟩
  · exact withColon_pos (matchFirst?_pos keywords_haveText h)
  · exact matchNumber?_pos h
  · exact matchScale?_pos h
  · exact withColon_pos (matchFirst?_pos units_haveText h)

end Brewhouse.Recipe
