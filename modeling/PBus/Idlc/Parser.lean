import PBus.Idlc.Reading
import Mathlib.Data.List.Chain

/-! What the parser accepts, and what of it is not in the language. -/
namespace PBus.Idlc

theorem parse_iff (tokens : List Token) (v : Value) :
    parse tokens = .ok v ↔ ∃ s : Source, s.tokens = tokens ∧ v = .interface s.tree := by
  constructor
  · exact parse_sound
  · rintro ⟨s, rfl, rfl⟩
    exact parse_complete s

/-- A comma comes right behind a parenthesis that opens. -/
def LeadingComma (tokens : List Token) : Prop :=
  [.literal .openParen, .literal .comma] <:+: tokens

theorem SourceType.literal_notMem (l : Literal) (s : SourceType) : .literal l ∉ s.tokens := by
  cases s with
  | named n => simp [tokens]
  | primitive p => simp [tokens]

theorem SourceType.tokens_ne_nil (s : SourceType) : s.tokens ≠ [] := by
  cases s with
  | named n => simp [tokens]
  | primitive p => simpa [tokens] using p.nonempty

theorem openParen_notMem_separated (args : List SourceArgument) :
    .literal .openParen ∉ separated args := by
  cases args with
  | nil => simp [separated]
  | cons a args =>
    rw [separated_cons]
    simp [further, SourceArgument.tokens, SourceType.literal_notMem]

theorem separated_head (args : List SourceArgument) (rest : List Token) :
    (separated args ++ .literal .closeParen :: rest).head? ≠ some (.literal .comma) := by
  cases args with
  | nil => simp [separated]
  | cons a args =>
    obtain ⟨token, tokens, split⟩ := List.exists_cons_of_ne_nil a.type.tokens_ne_nil
    rw [separated_cons, SourceArgument.tokens, split]
    rintro first
    obtain rfl := Option.some.inj first
    exact a.type.literal_notMem .comma (split ▸ List.mem_cons_self)

def MayFollow (a b : Token) : Prop := ¬ (a = .literal .openParen ∧ b = .literal .comma)

theorem not_leadingComma {tokens : List Token} (chain : tokens.IsChain MayFollow) :
    ¬ LeadingComma tokens := fun leading => by
  have pair := chain.infix leading
  rw [List.isChain_pair] at pair
  exact pair ⟨rfl, rfl⟩

theorem chain_append {xs ys : List Token} (free : .literal .openParen ∉ xs)
    (chain : ys.IsChain MayFollow) : (xs ++ ys).IsChain MayFollow := by
  induction xs with
  | nil => exact chain
  | cons x xs ih =>
    rw [List.mem_cons, not_or] at free
    rw [List.cons_append, List.isChain_cons]
    exact ⟨fun y _ both => free.1 both.1.symm, ih free.2⟩

theorem declared_chain {methods : List SourceMethod} (intended : ∀ m ∈ methods, m.comma = false) :
    (declared methods ++ [Token.literal .closeBrace]).IsChain MayFollow := by
  induction methods with
  | nil => exact List.isChain_singleton _
  | cons m methods ih =>
    have comma := intended m List.mem_cons_self
    have rest := ih fun m hm => intended m (List.mem_cons_of_mem _ hm)
    have tokens : declared (m :: methods) ++ [.literal .closeBrace] =
        (m.type.tokens ++ [.identifier m.name]) ++ .literal .openParen ::
          (separated m.arguments ++ .literal .closeParen :: .literal .semicolon ::
            (declared methods ++ [.literal .closeBrace])) := by
      simp [declared, SourceMethod.tokens, comma]
    rw [tokens]
    apply chain_append
    · simp [SourceType.literal_notMem]
    · rw [List.isChain_cons]
      constructor
      · intro y first both
        exact separated_head m.arguments _ (both.2 ▸ first)
      · apply chain_append (openParen_notMem_separated m.arguments)
        have free : Token.literal .openParen ∉ [.literal .closeParen, .literal .semicolon] := by
          decide
        exact chain_append free rest

def Source.header (s : Source) : List Token :=
  [.word .interface, .identifier s.name] ++
    s.base.elim [] (fun base => [.literal .colon, .identifier base]) ++ [.literal .openBrace]

theorem Source.tokens_eq (s : Source) :
    s.tokens = s.header ++ (declared s.methods ++ [.literal .closeBrace]) := by
  simp [tokens, header, braced]

theorem SourceMethod.leadingComma {m : SourceMethod} (comma : m.comma = true) :
    LeadingComma m.tokens := by
  refine ⟨m.type.tokens ++ [.identifier m.name],
    separated m.arguments ++ [.literal .closeParen], ?_⟩
  simp [tokens, comma]

theorem tokens_in_declared {methods : List SourceMethod} {m : SourceMethod} (member : m ∈ methods) :
    m.tokens <:+: declared methods := by
  obtain ⟨before, behind, rfl⟩ := List.append_of_mem member
  refine ⟨declared before, .literal .semicolon :: declared behind, ?_⟩
  simp [declared]

theorem intended_iff (s : Source) : s.Intended ↔ ¬ LeadingComma s.tokens := by
  rw [s.tokens_eq]
  constructor
  · intro intended
    apply not_leadingComma
    apply chain_append _ (declared_chain intended)
    cases base : s.base <;> simp [Source.header, base]
  · intro none' m member
    by_contra comma
    rw [Bool.not_eq_false] at comma
    have inMethods := (SourceMethod.leadingComma comma).trans (tokens_in_declared member)
    have inSource : declared s.methods <:+:
        s.header ++ (declared s.methods ++ [.literal .closeBrace]) :=
      ⟨s.header, [.literal .closeBrace], List.append_assoc _ _ _⟩
    exact none' (inMethods.trans inSource)

/-- These tokens are accepted exactly if they are of the language, with a tree that has methods,
arguments and modifiers in their order. -/
def ParsedAsIntended (tokens : List Token) : Prop :=
  ∀ v, parse tokens = .ok v ↔
    ∃ s : Source, s.Intended ∧ s.tokens = tokens ∧ v = .interface s.tree

/-- The parser has the language but for the interfaces with a comma in front of arguments. -/
theorem parsed_as_intended_iff (tokens : List Token) :
    ParsedAsIntended tokens ↔ ¬ LeadingComma tokens ∨ ∀ s : Source, s.tokens ≠ tokens := by
  constructor
  · intro claim
    by_cases written : ∃ s : Source, s.tokens = tokens
    · obtain ⟨s, rfl⟩ := written
      obtain ⟨s', intended, same, -⟩ := (claim _).mp (parse_complete s)
      exact .inl (same ▸ (intended_iff s').mp intended)
    · exact .inr fun s same => written ⟨s, same⟩
  · intro holds v
    rw [parse_iff]
    constructor
    · rintro ⟨s, rfl, rfl⟩
      rcases holds with none' | other
      · exact ⟨s, (intended_iff s).mpr none', rfl, rfl⟩
      · exact absurd rfl (other s)
    · rintro ⟨s, -, tokens, tree⟩
      exact ⟨s, tokens, tree⟩

/-- `interface A { void f(, int x); }` is accepted. -/
theorem leading_comma_taken :
    let a : Identifier := .ofText "A".toList (by decide +kernel)
    let f : Identifier := .ofText "f".toList (by decide +kernel)
    let x : Identifier := .ofText "x".toList (by decide +kernel)
    let tokens : List Token := [.word .interface, .identifier a, .literal .openBrace, .word .void,
      .identifier f, .literal .openParen, .literal .comma, .word .int, .identifier x,
      .literal .closeParen, .literal .semicolon, .literal .closeBrace]
    parse tokens = .ok (.interface ⟨"A".toList, none,
      [⟨⟨[], some "void".toList⟩, "f".toList, [⟨⟨[], some "int".toList⟩, "x".toList⟩]⟩]⟩) ∧
    ¬ ParsedAsIntended tokens := by
  intro a f x tokens
  let int : SourceType := .primitive ⟨[.int], by decide, by decide, by decide⟩
  let void : SourceType := .primitive ⟨[.void], by decide, by decide, by decide⟩
  let s : Source := ⟨a, none, [⟨void, f, [⟨int, x⟩], true, by simp⟩]⟩
  have accepted : parse tokens = .ok (.interface s.tree) := parse_complete s
  refine ⟨accepted, fun claim => ?_⟩
  obtain ⟨s', intended, same, -⟩ := (claim _).mp accepted
  apply (intended_iff s').mp intended
  rw [same]
  exact ⟨tokens.take 5, tokens.drop 7, rfl⟩

end PBus.Idlc
