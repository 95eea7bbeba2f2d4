import ActorHub.Proofs.Clause.Grammar

/-!
# Derivations of commands

The grammar of command bodies, one rule for each form. Parsing tries the forms in order and repeats
greedily, and still finds every clause that the grammar derives. Since a run has one outcome, no row of
tokens derives two clauses.
-/

namespace ActorHub.Clause

open ActorHub.Parser

/-- What shows that values follow: two names with a comma between them, a bare value or a quoted
string. -/
inductive IsLead : List Token → List String → Prop
  | names (a b : String) : IsLead [.name a, .delimiter .comma, .name b] [a, b]
  | value (s : String) : IsLead [.value s] [s]
  | quoted (s : String) : IsLead [.quoted s] [s]

inductive Derives : List Token → CommandClause → Prop
  | values (v : String) {lead ts us : List Token} {first more : List String} {cs : List KeywordClause} :
      IsLead lead first → Sequence IsMore ts more → Sequence IsKeyword us cs →
      Derives (.name v :: (lead ++ (ts ++ us))) ⟨v, first ++ more, cs⟩
  | valued (v n : String) {t : Token} {s : String} {ts us : List Token} {more : List String}
      {cs : List KeywordClause} : IsValue t s → Sequence IsMore ts more → Sequence IsKeyword us cs →
      Derives (.name v :: .name n :: .delimiter .equals :: t :: (ts ++ us))
        ⟨v, [], .named n (s :: more) :: cs⟩
  | raw (v w text : String) : Derives [.name v, .raw w, .line text] ⟨v, [], [.raw text]⟩
  | bare (v n : String) {us : List Token} {cs : List KeywordClause} : Sequence IsKeyword us cs →
      Derives (.name v :: .name n :: us) ⟨v, [], .named n [] :: cs⟩
  | verb (v : String) : Derives [.name v] ⟨v, [], []⟩

section
variable {ts : List Token} {c : CommandClause}

theorem Derives.isCommand (h : Derives ts c) : IsCommand ts c := by
  cases h with
  | values v hlead hm hk =>
    cases hlead with
    | names a b => exact (IsCommand.names v a b hm hk :)
    | value s => exact (IsCommand.values v (.value s) (by simp) hm hk :)
    | quoted s => exact (IsCommand.values v (.quoted s) (by simp) hm hk :)
  | valued v n ht hm hk => exact .keywords v n (.valued n ht hm) hk
  | raw v w text => exact .raw v w text
  | bare v n hk => exact .keywords v n (.bare n) hk
  | verb v => exact .verb v

theorem IsCommand.derives (h : IsCommand ts c) : Derives ts c := by
  cases h with
  | names v a b hm hk => exact (Derives.values v (.names a b) hm hk :)
  | values v ht hne hm hk =>
    cases ht with
    | name => exact absurd rfl (hne _)
    | value => exact (Derives.values v (.value _) hm hk :)
    | quoted => exact (Derives.values v (.quoted _) hm hk :)
  | keywords v n hfirst hk =>
    cases hfirst with
    | bare => exact .bare v n hk
    | valued _ ht hm => exact .valued v n ht hm hk
  | raw v w text => exact .raw v w text
  | verb v => exact .verb v

end

theorem parse_command_iff {ts rest : List Token} {c : CommandClause} :
    command.parse ts = some (c, rest) ↔ rest = [] ∧ Derives ts c := by
  constructor
  · intro h
    have hcommand := isCommand_of_parse h
    rw [parse_of_isCommand hcommand] at h
    cases h
    exact ⟨rfl, hcommand.derives⟩
  · rintro ⟨rfl, h⟩
    exact parse_of_isCommand h.isCommand

/-- Parsing finds exactly the clauses that the grammar derives, each from all of its tokens, and the
grammar is unambiguous. -/
theorem command_parses_iff_derives (ts : List Token) (c : CommandClause) :
    (∀ stop, Parser.run ts command 0 = .ok (stop, c) ↔ stop = ts.length ∧ Derives ts c) ∧
      ∀ d, Derives ts c → Derives ts d → c = d := by
  constructor
  · intro stop
    rw [run_eq_ok_iff fun h => (parse_command_iff.mp h).1, parse_command_iff]
    simp
  · intro d hc hd
    have hparse := parse_command_iff.mpr ⟨rfl, hc⟩
    rw [parse_command_iff.mpr ⟨rfl, hd⟩] at hparse
    cases hparse
    rfl

theorem command_parses_iff_derives_names :
    Derives [.name "move", .name "a", .delimiter .comma, .name "b", .delimiter .comma, .quoted "c d",
      .name "x", .delimiter .equals, .value "1", .name "y", .raw "RAW", .line "z"]
      ⟨"move", ["a", "b", "c d"], [.named "x" ["1"], .named "y" [], .raw "z"]⟩ ∧
    Parser.run [.name "move", .name "a", .delimiter .comma, .name "b", .delimiter .comma, .quoted "c d",
      .name "x", .delimiter .equals, .value "1", .name "y", .raw "RAW", .line "z"] command 0 =
      .ok (12, ⟨"move", ["a", "b", "c d"], [.named "x" ["1"], .named "y" [], .raw "z"]⟩) := by
  have hsecond := IsMore.comma (.quoted "c d")
  have hvalued := IsKeyword.valued "x" (.value "1") .nil
  have hkeywords := Sequence.cons hvalued (.cons (.bare "y") (.cons (.raw "RAW" "z") .nil))
  have hderives := Derives.values "move" (.names "a" "b") (.cons hsecond .nil) hkeywords
  exact ⟨hderives, ((command_parses_iff_derives _ _).1 12).mpr ⟨rfl, hderives⟩⟩

end ActorHub.Clause
