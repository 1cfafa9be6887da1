import PBus.Idlc.Visits

/-! The texts of the language: sources whose tokens are laid out in any way, with blanks, line
ends and comments between them. The lexer takes out nothing else, so that the compiler reads
exactly these texts. -/
namespace PBus.Idlc

/-- The token is written next to what a text begins with and ends there. -/
def Token.Ends : Token → Str → Prop
  | .literal _, _ => True
  | .word _, text | .identifier _, text => ∀ c ∈ text.head?, isIdentifierRest c = false

/-- The tokens, in a text with anything between them that is no token. -/
inductive Laid : List Token → Str → Prop where
  | done : Laid [] []
  | blank : isIgnored c = true → Laid tokens text → Laid tokens (c :: text)
  | line : Laid tokens text → Laid tokens ('\n' :: text)
  /-- A comment ends where it first can. -/
  | block (body : Str) : ¬ ['*', '/'] <:+: body ++ ['*'] → Laid tokens text →
      Laid tokens ('/' :: '*' :: (body ++ '*' :: '/' :: text))
  /-- The end of a line ends its comment, or the end of the text. -/
  | comment (body : Str) : '\n' ∉ body → (∀ c ∈ text.head?, c = '\n') → Laid tokens text →
      Laid tokens ('/' :: '/' :: (body ++ text))
  | token (token : Token) : token.Ends text → Laid tokens text →
      Laid (token :: tokens) (token.text ++ text)

/-! What is laid out is read. -/

theorem behindComment_body {body : Str} (inside : ¬ ['*', '/'] <:+: body ++ ['*'])
    (text : Str) : behindComment (body ++ '*' :: '/' :: text) = some text := by
  induction body with
  | nil => rfl
  | cons c body ih =>
    have later : ¬ ['*', '/'] <:+: body ++ ['*'] := fun early =>
      inside (early.trans (List.suffix_cons c _).isInfix)
    rw [List.cons_append, behindComment]
    · exact ih later
    · -- the comment does not end at once
      rintro rest rfl same
      cases body with
      | nil => simp at same
      | cons d body =>
        obtain ⟨rfl, -⟩ := List.cons.inj same
        exact inside ⟨[], body ++ ['*'], rfl⟩

theorem tCcodeComment_line {body text : Str} (inside : '\n' ∉ body)
    (ends : ∀ c ∈ text.head?, c = '\n') :
    tCcodeComment ('/' :: '/' :: (body ++ text)) = some text := by
  have all : ∀ c ∈ body, (c != '\n') = true := by
    intro c member
    rw [bne_iff_ne]
    rintro rfl
    exact inside member
  rw [tCcodeComment, List.dropWhile_append_of_pos all]
  cases text with
  | nil => rfl
  | cons c text =>
    obtain rfl := ends c rfl
    rfl

theorem lex_comment {text rest : Str} (matched : tCcodeComment ('/' :: text) = some rest) :
    lex ('/' :: text) = lex rest := by
  rw [lex, if_neg (by decide), dif_neg (by decide)]
  split
  next rest' same => rw [Option.some.inj (same.symm.trans matched)]
  next none' =>
    rw [matched] at none'
    contradiction

theorem lex_line (text : Str) : lex ('\n' :: text) = lex (text.dropWhile (· == '\n')) := by
  rw [lex, if_neg (by decide), dif_neg (by decide)]
  split
  next rest matched => simp [tCcodeComment] at matched
  next => rw [if_pos rfl]

theorem lex_lines (text : Str) : lex (text.dropWhile (· == '\n')) = lex text := by
  cases text with
  | nil => rfl
  | cons c text =>
    by_cases line : c = '\n'
    · subst line
      rw [lex_line]
      rfl
    · rw [List.dropWhile_cons_of_neg (by simpa using line)]

theorem takeWhile_ends {cs text : Str} (all : ∀ c ∈ cs, isIdentifierRest c = true)
    (ends : ∀ c ∈ text.head?, isIdentifierRest c = false) :
    (cs ++ text).takeWhile isIdentifierRest = cs ∧
      (cs ++ text).dropWhile isIdentifierRest = text := by
  rw [List.takeWhile_append_of_pos all, List.dropWhile_append_of_pos all]
  cases text with
  | nil => simp
  | cons c text =>
    have outside := ends c rfl
    simp [outside]

theorem lex_start {c : Char} {cs text : Str} (start : isIdentifierStart c = true)
    (all : ∀ d ∈ cs, isIdentifierRest d = true)
    (ends : ∀ d ∈ text.head?, isIdentifierRest d = false) :
    lex (c :: (cs ++ text)) = (tIdentifier c (cs ++ text) start).followedBy (lex text) ∧
      identifierText c (cs ++ text) = c :: cs := by
  obtain ⟨taken, dropped⟩ := takeWhile_ends all ends
  constructor
  · rw [lex, if_neg (by rw [isIdentifierStart_ignored start]; decide), dif_pos start, dropped]
  · rw [identifierText, taken]

theorem lex_token {token : Token} {text : Str} (ends : token.Ends text) :
    lex (token.text ++ text) = token.followedBy (lex text) := by
  cases token with
  | identifier name =>
    obtain ⟨c, first, start⟩ := name.start
    obtain ⟨cs, split⟩ := List.head?_eq_some_iff.mp first
    have all : ∀ d ∈ cs, isIdentifierRest d = true := fun d hd =>
      name.rest d (split ▸ List.mem_cons_of_mem _ hd)
    obtain ⟨read, value⟩ := lex_start start all ends
    rw [Token.text, split, List.cons_append, read,
      tIdentifier_identifier start (value.trans split.symm)]
  | word w =>
    have split : ∃ c cs, w.text = c :: cs ∧ isIdentifierStart c = true ∧
        cs.all isIdentifierRest = true := by
      cases w <;> exact ⟨_, _, rfl, by decide, by decide⟩
    obtain ⟨c, cs, split, start, all⟩ := split
    obtain ⟨read, value⟩ := lex_start start (List.all_eq_true.mp all) ends
    rw [Token.text, split, List.cons_append, read,
      tIdentifier_word start (value.trans split.symm)]
  | literal l => exact lex_literal l text

theorem lex_laid {tokens : List Token} {text : Str} (laid : Laid tokens text) :
    lex text = .ok tokens := by
  induction laid with
  | done => rw [lex]
  | blank ignored _ ih => rwa [lex, if_pos ignored]
  | line _ ih => rwa [lex_line, lex_lines]
  | @block tokens text body inside _ ih =>
    have matched : tCcodeComment ('/' :: '*' :: (body ++ '*' :: '/' :: text)) = some text :=
      behindComment_body inside text
    rwa [lex_comment matched]
  | comment body inside ends _ ih => rwa [lex_comment (tCcodeComment_line inside ends)]
  | token token ends _ ih =>
    rw [lex_token ends, ih]
    rfl

/-! What is read is laid out. -/

theorem behindComment_cases {text rest : Str} (behind : behindComment text = some rest) :
    ∃ body, text = body ++ '*' :: '/' :: rest ∧ ¬ ['*', '/'] <:+: body ++ ['*'] := by
  induction text using behindComment.induct with
  | case1 text =>
    obtain rfl := Option.some.inj behind
    refine ⟨[], rfl, fun early => ?_⟩
    have short := early.length_le
    simp at short
  | case2 c text other ih =>
    rw [behindComment] at behind
    swap
    · exact other
    obtain ⟨body, rfl, inside⟩ := ih behind
    refine ⟨c :: body, rfl, ?_⟩
    rw [List.cons_append, List.infix_cons_iff]
    rintro (first | early)
    · -- it would have ended here
      obtain ⟨rest', same⟩ := first
      obtain ⟨rfl, tail⟩ := List.cons.inj same
      cases body with
      | nil => simp at tail
      | cons d body =>
        obtain ⟨rfl, -⟩ := List.cons.inj tail
        exact other _ rfl rfl
    · exact inside early
  | case3 => contradiction

theorem laid_comment {tokens : List Token} {text rest : Str}
    (matched : tCcodeComment text = some rest) (laid : Laid tokens rest) : Laid tokens text := by
  unfold tCcodeComment at matched
  split at matched
  next text =>
    obtain ⟨body, rfl, inside⟩ := behindComment_cases matched
    exact .block body inside laid
  next text =>
    obtain rfl := Option.some.inj matched
    have split := List.takeWhile_append_dropWhile (p := (· != '\n')) (l := text)
    rw [← split]
    refine .comment _ ?_ ?_ laid
    · intro member
      have other := List.all_eq_true.mp List.all_takeWhile _ member
      simp at other
    · intro c first
      have stops := List.head?_dropWhile_not (· != '\n') text
      rw [first] at stops
      simpa using stops
  next => contradiction

theorem laid_lines {tokens : List Token} {text : Str}
    (laid : Laid tokens (text.dropWhile (· == '\n'))) : Laid tokens text := by
  induction text with
  | nil => exact laid
  | cons c text ih =>
    by_cases line : c = '\n'
    · subst line
      exact .line (ih laid)
    · rwa [List.dropWhile_cons_of_neg (by simpa using line)] at laid

theorem tIdentifier_text {c : Char} (text : Str) (start : isIdentifierStart c = true) :
    (tIdentifier c text start).text = c :: text.takeWhile isIdentifierRest := by
  unfold tIdentifier
  split
  next w found =>
    rw [reserved] at found
    have same := List.find?_some found
    exact of_decide_eq_true same
  next => rfl

theorem tIdentifier_ends {c : Char} (text : Str) (start : isIdentifierStart c = true) :
    (tIdentifier c text start).Ends (text.dropWhile isIdentifierRest) := by
  have stops : ∀ d ∈ (text.dropWhile isIdentifierRest).head?, isIdentifierRest d = false := by
    intro d first
    have stops := List.head?_dropWhile_not isIdentifierRest text
    rw [first] at stops
    simpa using stops
  unfold tIdentifier
  split <;> exact stops

theorem laid_lex {tokens : List Token} {text : Str} (read : lex text = .ok tokens) :
    Laid tokens text := by
  induction text using lex.induct generalizing tokens with
  | case1 =>
    rw [lex, Except.ok.injEq] at read
    exact read ▸ .done
  | case2 c text ignored ih =>
    rw [lex, if_pos ignored] at read
    exact .blank ignored (ih read)
  | case3 c text ignored start ih =>
    rw [lex, if_neg ignored, dif_pos start] at read
    cases rest : lex (text.dropWhile isIdentifierRest) with
    | error message => simp [rest, Token.followedBy] at read
    | ok tokens' =>
      obtain rfl : tIdentifier c text start :: tokens' = tokens := by
        simpa [rest, Token.followedBy] using read
      have laid := Laid.token _ (tIdentifier_ends text start) (ih rest)
      rwa [tIdentifier_text, List.cons_append, List.takeWhile_append_dropWhile] at laid
  | case4 c text ignored start rest matched ih =>
    rw [lex, if_neg ignored, dif_neg start] at read
    split at read
    next rest' same =>
      obtain rfl := Option.some.inj (same.symm.trans matched)
      exact laid_comment matched (ih read)
    next none' =>
      rw [matched] at none'
      contradiction
  | case5 text ignored start none' ih =>
    rw [lex_line] at read
    exact .line (laid_lines (ih read))
  | case6 c text ignored start none' line l found ih =>
    rw [lex, if_neg ignored, dif_neg start] at read
    split at read
    next rest matched =>
      rw [none'] at matched
      contradiction
    next =>
      rw [if_neg line, found] at read
      obtain rfl : l.char = c := by simpa using List.find?_some found
      cases rest : lex text with
      | error message => simp [rest, Token.followedBy] at read
      | ok tokens' =>
        obtain rfl : Token.literal l :: tokens' = tokens := by
          simpa [rest, Token.followedBy] using read
        exact .token (.literal l) trivial (ih rest)
  | case7 c text ignored start none' line other =>
    rw [lex, if_neg ignored, dif_neg start] at read
    split at read
    next rest matched =>
      rw [none'] at matched
      contradiction
    next =>
      rw [if_neg line, other] at read
      contradiction

theorem lex_iff (text : Str) (tokens : List Token) :
    lex text = .ok tokens ↔ Laid tokens text :=
  ⟨laid_lex, lex_laid⟩

/-- Every text: the compiler accepts it exactly if it is a source of the language laid out in
some way, and then with the tree of that source; so nothing between the tokens changes what is
generated. -/
theorem accepted_iff_laid (text : Str) (v : Value) : parseText text = .ok v ↔
    ∃ s : Source, Laid s.tokens text ∧ v = .interface s.tree := by
  rw [parseText_iff]
  exact exists_congr fun s => and_congr_left' (lex_iff text s.tokens)

end PBus.Idlc
