import PBus.Idlc.Grammar

/-! The lexer that PLY builds of `idl/grammar.py`. The lines it counts are left out. -/
namespace PBus.Idlc

/-- `t_ignore`. -/
def isIgnored (c : Char) : Bool := c == ' ' || c == '\x0c' || c == '\r' || c == '\t'

def Literal.all : List Literal :=
  [.openBrace, .closeBrace, .openParen, .closeParen, .comma, .semicolon, .colon]

/-- `reserved.get`. -/
def reserved (value : Str) : Option Word := Word.all.find? fun w => w.text = value

theorem reserved_none {value : Str} (none' : reserved value = none) (w : Word) :
    w.text ≠ value := by
  have other := List.find?_eq_none.mp none' w w.mem_all
  simpa using other

theorem reserved_text (w : Word) : reserved w.text = some w := by
  cases w <;> decide +kernel

theorem reserved_identifier (name : Identifier) : reserved name.text = none := by
  rw [reserved, List.find?_eq_none]
  intro w _
  simpa using name.unreserved w

/-- The longest identifier at the front of a text that begins with one. -/
def identifierText (c : Char) (text : Str) : Str := c :: text.takeWhile isIdentifierRest

theorem identifierText_rest {c : Char} (start : isIdentifierStart c = true) (text : Str) :
    ∀ d ∈ identifierText c text, isIdentifierRest d = true := by
  intro d member
  rcases List.mem_cons.mp member with rfl | rest
  · rw [isIdentifierRest, start, Bool.true_or, Bool.true_or]
  · exact List.all_eq_true.mp List.all_takeWhile d rest

/-- `t_IDENTIFIER`. -/
def tIdentifier (c : Char) (text : Str) (start : isIdentifierStart c = true) : Token :=
  match found : reserved (identifierText c text) with
  | some w => .word w
  | none => .identifier ⟨identifierText c text, ⟨c, rfl, start⟩, identifierText_rest start text,
      reserved_none found⟩

/-- What is behind the end of a comment. -/
def behindComment : Str → Option Str
  | '*' :: '/' :: text => some text
  | _ :: text => behindComment text
  | [] => none

/-- `t_ccode_comment`, if it matches. -/
def tCcodeComment : Str → Option Str
  | '/' :: '*' :: text => behindComment text
  | '/' :: '/' :: text => some (text.dropWhile (· != '\n'))
  | _ => none

theorem behindComment_length {text rest : Str} (behind : behindComment text = some rest) :
    rest.length < text.length := by
  induction text using behindComment.induct with
  | case1 text =>
    obtain rfl := Option.some.inj behind
    simp only [List.length_cons]
    omega
  | case2 c text other ih =>
    rw [behindComment] at behind
    · exact Nat.lt_succ_of_lt (ih behind)
    · exact other
  | case3 => contradiction

theorem tCcodeComment_length {text rest : Str} (matched : tCcodeComment text = some rest) :
    rest.length < text.length := by
  unfold tCcodeComment at matched
  split at matched
  next text =>
    have less := behindComment_length matched
    simp only [List.length_cons]
    omega
  next text =>
    obtain rfl := Option.some.inj matched
    have less := (List.dropWhile_suffix (l := text) (· != '\n')).length_le
    simp only [List.length_cons]
    omega
  next => contradiction

/-- `t_error`. -/
def tError (c : Char) : Str := "Illegal character '".toList ++ [c] ++ "'".toList

/-- What the lexer throws, and the tokens it has given by then. -/
structure LexError where
  given : List Token
  what : Str

/-- The token, and what comes of the rest of the text. -/
def Token.followedBy (token : Token) :
    Except LexError (List Token) → Except LexError (List Token)
  | .ok tokens => .ok (token :: tokens)
  | .error e => .error ⟨token :: e.given, e.what⟩

/-- The tokens of a text: the rules in the order of the file, then the literals. -/
def lex : Str → Except LexError (List Token)
  | [] => .ok []
  | c :: text =>
    if isIgnored c then lex text
    else if start : isIdentifierStart c = true then
      (tIdentifier c text start).followedBy (lex (text.dropWhile isIdentifierRest))
    else
      match _matched : tCcodeComment (c :: text) with
      | some rest => lex rest
      | none =>
        if c = '\n' then lex (text.dropWhile (· == '\n'))
        else
          match Literal.all.find? fun l => l.char = c with
          | some l => (Token.literal l).followedBy (lex text)
          | none => .error ⟨[], tError c⟩
  termination_by text => text.length
  decreasing_by
    · exact Nat.lt_succ_self _
    · exact Nat.lt_succ_of_le (List.dropWhile_suffix _).length_le
    · exact tCcodeComment_length _matched
    · exact Nat.lt_succ_of_le (List.dropWhile_suffix _).length_le
    · exact Nat.lt_succ_self _

/-- The tokens, each with a blank behind it. -/
def spell (tokens : List Token) : Str := tokens.flatMap fun token => token.text ++ [' ']

theorem isIdentifierStart_ignored {c : Char} (start : isIdentifierStart c = true) :
    isIgnored c = false := by
  by_contra ignored
  rw [Bool.not_eq_false] at ignored
  simp only [isIgnored, Bool.or_eq_true, beq_iff_eq] at ignored
  rcases ignored with ((rfl | rfl) | rfl) | rfl <;> exact absurd start (by decide)

theorem takeWhile_blank {cs : Str} (all : ∀ c ∈ cs, isIdentifierRest c = true) (rest : Str) :
    (cs ++ ' ' :: rest).takeWhile isIdentifierRest = cs ∧
      (cs ++ ' ' :: rest).dropWhile isIdentifierRest = ' ' :: rest := by
  have blank : isIdentifierRest ' ' = false := by decide
  constructor
  · rw [List.takeWhile_append_of_pos all, List.takeWhile_cons_of_neg (by rw [blank]; decide),
      List.append_nil]
  · rw [List.dropWhile_append_of_pos all, List.dropWhile_cons_of_neg (by rw [blank]; decide)]

theorem lex_blank (text : Str) : lex (' ' :: text) = lex text := by
  rw [lex, if_pos (by decide)]

theorem lex_identifier {c : Char} {cs : Str} (start : isIdentifierStart c = true)
    (all : ∀ d ∈ cs, isIdentifierRest d = true) (rest : Str) :
    lex (c :: cs ++ ' ' :: rest) =
      (tIdentifier c (cs ++ ' ' :: rest) start).followedBy (lex rest) ∧
    identifierText c (cs ++ ' ' :: rest) = c :: cs := by
  obtain ⟨taken, dropped⟩ := takeWhile_blank all rest
  constructor
  · rw [List.cons_append, lex, if_neg (by rw [isIdentifierStart_ignored start]; decide),
      dif_pos start, dropped, lex_blank]
  · rw [identifierText, taken]

theorem tIdentifier_word {c : Char} {text : Str} (start : isIdentifierStart c = true) {w : Word}
    (same : identifierText c text = w.text) : tIdentifier c text start = .word w := by
  have found : reserved (identifierText c text) = some w := by rw [same, reserved_text]
  unfold tIdentifier
  split
  next w' found' => rw [Option.some.inj (found'.symm.trans found)]
  next none' =>
    rw [found] at none'
    contradiction

theorem tIdentifier_identifier {c : Char} {text : Str} (start : isIdentifierStart c = true)
    {name : Identifier} (same : identifierText c text = name.text) :
    tIdentifier c text start = .identifier name := by
  have none' : reserved (identifierText c text) = none := by rw [same, reserved_identifier]
  unfold tIdentifier
  split
  next w found =>
    rw [none'] at found
    contradiction
  next => simp only [same]

theorem lex_literal (l : Literal) (rest : Str) :
    lex (l.char :: rest) = (Token.literal l).followedBy (lex rest) := by
  have comment : tCcodeComment (l.char :: rest) = none := by
    unfold tCcodeComment
    cases l <;> rfl
  have found : Literal.all.find? (fun k => k.char = l.char) = some l := by cases l <;> decide
  have ignored : isIgnored l.char = false := by cases l <;> decide
  have start : isIdentifierStart l.char = false := by cases l <;> decide
  have line : l.char ≠ '\n' := by cases l <;> decide
  rw [lex, if_neg (by rw [ignored]; decide), dif_neg (by rw [start]; decide)]
  split
  next rest' matched =>
    rw [comment] at matched
    contradiction
  next => rw [if_neg line, found]

/-- The lexer reads every token: what is written between blanks is read again. -/
theorem lex_spell (tokens : List Token) : lex (spell tokens) = .ok tokens := by
  induction tokens with
  | nil => rw [spell, List.flatMap_nil, lex]
  | cons token tokens ih =>
    have text : spell (token :: tokens) = token.text ++ ' ' :: spell tokens := by simp [spell]
    rw [text]
    cases token with
    | identifier name =>
      obtain ⟨c, first, start⟩ := name.start
      obtain ⟨cs, split⟩ := List.head?_eq_some_iff.mp first
      have all : ∀ d ∈ cs, isIdentifierRest d = true := fun d hd =>
        name.rest d (split ▸ List.mem_cons_of_mem _ hd)
      obtain ⟨read, value⟩ := lex_identifier start all (spell tokens)
      rw [Token.text, split, read, ih, tIdentifier_identifier start (value.trans split.symm)]
      rfl
    | word w =>
      have split : ∃ c cs, w.text = c :: cs ∧ isIdentifierStart c = true ∧
          cs.all isIdentifierRest = true := by
        cases w <;> exact ⟨_, _, rfl, by decide, by decide⟩
      obtain ⟨c, cs, split, start, all⟩ := split
      obtain ⟨read, value⟩ := lex_identifier start (List.all_eq_true.mp all) (spell tokens)
      rw [Token.text, split, read, ih, tIdentifier_word start (value.trans split.symm)]
      rfl
    | literal l =>
      rw [Token.text, List.singleton_append, lex_literal, lex_blank, ih]
      rfl

end PBus.Idlc
