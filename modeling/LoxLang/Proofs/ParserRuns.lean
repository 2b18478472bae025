import LoxLang.Proofs.ParserLogic
import LoxLang.Proofs.RuleParts

/-!
Runs of rules that end well.  From a state whose next tokens are the right ones, a rule gives a
result, leaves the tokens behind it, and notes no error; the numbers that it hands out play no
part.
-/

set_option autoImplicit false
set_option relaxedAutoImplicit false

namespace LoxLang

namespace Parse

variable {α β : Type} {s : ParseState} {ts rest : List Token} {t : Token}

/-- From a state, a rule ends well without a note, with a result of which `P` holds and with the
tokens `rest` ahead. -/
def Gives (rule : ParseM α) (s : ParseState) (P : α → Prop) (rest : List Token) : Prop :=
  ∃ a s', outcome rule s = (.ok a, s') ∧ P a ∧ s'.ahead = rest ∧ s'.errors = s.errors

namespace Gives

variable {rule : ParseM α} {P : α → Prop}

theorem pure {a : α} (h : P a) (ahead : s.ahead = rest) : Gives (Pure.pure a) s P rest :=
  ⟨a, s, rfl, h, ahead, rfl⟩

theorem bind {next : α → ParseM β} {Q : β → Prop} {mid : List Token} (first : Gives rule s P mid)
    (second : ∀ a s', P a → s'.ahead = mid → Gives (next a) s' Q rest) :
    Gives (rule >>= next) s Q rest := by
  obtain ⟨a, s', run, ha, ahead, same⟩ := first
  obtain ⟨b, s'', run', hb, ahead', same'⟩ := second a s' ha ahead
  refine ⟨b, s'', ?_, hb, ahead', same'.trans same⟩
  rw [outcome_bind, run]
  exact run'

theorem map {f : α → β} {Q : β → Prop} (h : Gives rule s P rest) (image : ∀ a, P a → Q (f a)) :
    Gives (f <$> rule) s Q rest := by
  obtain ⟨a, s', run, ha, ahead, same⟩ := h
  refine ⟨f a, s', ?_, image a ha, ahead, same⟩
  rw [outcome_map, run]
  rfl

theorem acceptAny {kinds : List Kind} (ahead : s.ahead = t :: rest) (kind : t.kind ∈ kinds) :
    Gives (acceptAny kinds) s (· = some t) rest := by
  refine ⟨some t, { s with ahead := rest }, ?_, rfl, rfl, rfl⟩
  rw [outcome_acceptAny, ahead]
  simp only [if_pos kind]

theorem acceptAny_none (kinds : List Kind) (ahead : s.ahead = ts)
    (kind : ∀ t ∈ ts.head?, t.kind ∉ kinds) : Gives (Parse.acceptAny kinds) s (· = none) ts := by
  refine ⟨none, s, ?_, rfl, ahead, rfl⟩
  rw [outcome_acceptAny, ahead]
  cases ts with
  | nil => rfl
  | cons t ts => simp only [if_neg (kind t rfl)]

theorem expect {kind : Kind} {expected : Expected} (ahead : s.ahead = t :: rest)
    (hkind : t.kind = kind) : Gives (expect kind expected) s (· = t) rest := by
  refine (acceptAny ahead (List.mem_singleton.mpr hkind)).bind ?_
  rintro _ s' rfl ahead'
  exact pure rfl ahead'

theorem check {kind : Kind} (ahead : s.ahead = ts) :
    Gives (check kind) s (· = ts.head?.any (·.kind = kind)) ts :=
  ⟨_, s, outcome_check kind s, by rw [ahead], ahead, rfl⟩

theorem atEnd (ahead : s.ahead = ts) : Gives atEnd s (· = ts.isEmpty) ts :=
  ⟨_, s, outcome_atEnd s, by rw [ahead], ahead, rfl⟩

theorem freshExpr (ahead : s.ahead = ts) : Gives freshExpr s (fun _ => True) ts :=
  ⟨_, _, outcome_freshExpr s, trivial, ahead, rfl⟩

theorem freshSite (ahead : s.ahead = ts) : Gives freshSite s (fun _ => True) ts :=
  ⟨_, _, outcome_freshSite s, trivial, ahead, rfl⟩

theorem noteFull {count : Nat} {fault : SyntaxFault} (within : count < maxArity)
    (ahead : s.ahead = ts) : Gives (noteFull count fault) s (fun _ => True) ts := by
  unfold Parse.noteFull
  rw [if_neg (Nat.not_le.mpr within)]
  exact pure trivial ahead

theorem recovering {rule : ParseM Stmt} {P : Stmt → Prop} (h : Gives rule s P rest) :
    Gives (recovering rule) s (fun r => ∃ a, r = some a ∧ P a) rest := by
  obtain ⟨a, s', run, ha, ahead, same⟩ := h
  refine ⟨some a, s', ?_, ⟨a, rfl, ha⟩, ahead, same⟩
  rw [outcome_recovering, run]

end Gives

end Parse

end LoxLang
