import LoxLang.Proofs.Placement
import LoxLang.Proofs.TracedExecution

/-!
Executions that keep to the static scopes.  From a store in which everything is scoped such an
execution comes to another one, with a scoped result, and whenever it reads or assigns a variable at
a recorded distance, it finds the frame that was made for the static scope in which the name was
found.
-/

set_option autoImplicit false
set_option relaxedAutoImplicit false

namespace LoxLang

open Std (TreeMap)

/-- What an expression reads at a distance is held by the frame that was made for the static scope
in which its name was found. -/
def ReadsItsFrame (A : Expr → StaticStack → Prop) (V : Known) (e : Expr) (name : String) (d : Nat)
    (m : Machine) : Prop :=
  ∃ Γ σ t, A e Γ ∧ Γ.distance? name = some d ∧ Γ[d]? = some σ ∧ σ.names.contains name ∧
    m.scope.ancestor? d = some t ∧ m.store.holds t.frame name ∧ V.opened σ.origin t

/-- What an expression is about to assign at a distance is in the frame that was made for the static
scope in which its name was found, unless the declaration of the name is not complete. -/
def AssignsItsFrame (A : Expr → StaticStack → Prop) (V : Known) (e : Expr) (name : String) (d : Nat)
    (m : Machine) : Prop :=
  ∃ Γ σ t, A e Γ ∧ Γ.distance? name = some d ∧ Γ[d]? = some σ ∧ σ.names.contains name ∧
    m.scope.ancestor? d = some t ∧ V.opened σ.origin t ∧
    (m.store.holds t.frame name ↔ ¬Γ.incomplete name)

def DeclaresItsName (V : Known) (s : Stmt) (m : Machine) : Prop :=
  ∃ name, s.declares? = some name ∧ (m.scope = .globals ∨
    ∃ o, V.opened o m.scope ∧ s ∈ o.body ∧ ¬m.store.holds m.scope.frame name.lexeme)

/-- An event at which nothing goes wrong with distances: whatever is read at one is where it should
be, and so is whatever is given a value. -/
def Event.Scoped (A : Expr → StaticStack → Prop) (D : Distances) (V : Known) : Event → Prop
  | .evaluated D' e m => D' = D ∧ ∀ id name d, e.read? = some (id, name) → D[id]? = some d →
      ReadsItsFrame A V e name.lexeme d m
  | .opened _ s => s.frame ≠ Scope.globals.frame
  | .filled frame bindings => ∃ o s, V.opened o s ∧ s.frame = frame ∧
      ∀ name, bindings.contains name → name ∈ o.given
  | .declares s _ m => DeclaresItsName V s m
  | .assigns D' e _ m => D' = D ∧ ∃ id name value, e = .assign id name value ∧
      ∀ d, D[id]? = some d → AssignsItsFrame A V e name.lexeme d m
  | _ => True

/-- Where an expression is about to be evaluated that reads a variable, the present scope stands for
the static scopes in which the expression is met. -/
def Event.Situated (A : Expr → StaticStack → Prop) (V : Known) : Event → Prop
  | .evaluated D e m => ∀ id name, e.read? = some (id, name) → ∃ missing Γ, A e Γ ∧
      D[id]? = Γ.distance? name.lexeme ∧
      Stands ⟨V.opened, fun f x => m.store.holds f x⟩ missing Γ m.scope
  | _ => True

def Event.Sound (A : Expr → StaticStack → Prop) (D : Distances) (V : Known) (ev : Event) : Prop :=
  ev.Scoped A D V ∧ ev.Situated A V

def Foreseen (A : Expr → StaticStack → Prop) (D : Distances) : Prop :=
  ∀ e Γ, A e Γ → ∀ id name, e.reference? = some (id, name) → D[id]? = Γ.distance? name.lexeme

def EndScoped {α : Type} (A : Expr → StaticStack → Prop) (V : Known) (P : Known → α → Prop) :
    Except Interrupt α → Prop
  | .ok a => P V a
  | .error (.returned v) => v.Scoped A V
  | .error (.failure _) => True

def ComesTo {α : Type} (A : Expr → StaticStack → Prop) (D : Distances) (V : Known) (scope : Scope)
    (P : Known → α → Prop) (events : List Event) (out : Except Interrupt α × Machine) : Prop :=
  ∃ V', V ≤ V' ∧ (∀ o s, V'.opened o s ↔ V.opened o s ∨ .opened o s ∈ events) ∧
    (∀ ev ∈ events, ev.Sound A D V') ∧ EndScoped A V' P out.1 ∧ out.2.store.Scoped A V' ∧
    out.2.scope = scope

def ScopedRun {α : Type} (A : Expr → StaticStack → Prop) (D : Distances) (V : Known) (scope : Scope)
    (P : Known → α → Prop) (act : EvalM α) (events : Machine → List Event) : Prop :=
  ∀ m, m.store.Scoped A V → m.scope = scope → ComesTo A D V scope P (events m) (act.outcome m)

theorem Event.Scoped.mono {A : Expr → StaticStack → Prop} {D : Distances} {V V' : Known}
    {ev : Event} (h : ev.Scoped A D V) (le : V ≤ V') : ev.Scoped A D V' := by
  cases ev with
  | opened o s => exact h
  | evaluated D' e m =>
    refine ⟨h.1, fun id name d read found => ?_⟩
    obtain ⟨Γ, σ, t, met, distance, around, member, out, held, opened⟩ := h.2 id name d read found
    exact ⟨Γ, σ, t, met, distance, around, member, out, held, le.1 _ _ opened⟩
  | filled frame bindings =>
    obtain ⟨o, s, opened, rest⟩ := h
    exact ⟨o, s, le.1 _ _ opened, rest⟩
  | declares s v m =>
    obtain ⟨name, names, globals | ⟨o, opened, rest⟩⟩ := h
    · exact ⟨name, names, .inl globals⟩
    · exact ⟨name, names, .inr ⟨o, le.1 _ _ opened, rest⟩⟩
  | assigns D' e v m =>
    obtain ⟨same, id, name, value, rfl, finds⟩ := h
    refine ⟨same, id, name, value, rfl, fun d found => ?_⟩
    obtain ⟨Γ, σ, t, met, distance, around, member, out, opened, held⟩ := finds d found
    exact ⟨Γ, σ, t, met, distance, around, member, out, le.1 _ _ opened, held⟩
  | _ => trivial

theorem Event.Scoped.widen {A A' : Expr → StaticStack → Prop} {D : Distances} {V : Known}
    {ev : Event} (h : ev.Scoped A D V) (more : ∀ e Γ, A e Γ → A' e Γ) : ev.Scoped A' D V := by
  cases ev with
  | evaluated D' e m =>
    refine ⟨h.1, fun id name d read found => ?_⟩
    obtain ⟨Γ, σ, t, met, rest⟩ := h.2 id name d read found
    exact ⟨Γ, σ, t, more e Γ met, rest⟩
  | assigns D' e v m =>
    obtain ⟨same, id, name, value, rfl, finds⟩ := h
    refine ⟨same, id, name, value, rfl, fun d found => ?_⟩
    obtain ⟨Γ, σ, t, met, rest⟩ := finds d found
    exact ⟨Γ, σ, t, more _ Γ met, rest⟩
  | _ => exact h

theorem Event.Situated.mono {A : Expr → StaticStack → Prop} {V V' : Known} {ev : Event}
    (h : ev.Situated A V) (le : V ≤ V') : ev.Situated A V' := by
  cases ev with
  | evaluated D e m =>
    intro id name read
    obtain ⟨missing, Γ, met, distance, stands⟩ := h id name read
    exact ⟨missing, Γ, met, distance, stands.mono ⟨le.1, fun _ _ held => held⟩⟩
  | _ => trivial

theorem Event.Situated.widen {A A' : Expr → StaticStack → Prop} {V : Known} {ev : Event}
    (h : ev.Situated A V) (more : ∀ e Γ, A e Γ → A' e Γ) : ev.Situated A' V := by
  cases ev with
  | evaluated D e m =>
    intro id name read
    obtain ⟨missing, Γ, met, rest⟩ := h id name read
    exact ⟨missing, Γ, more e Γ met, rest⟩
  | _ => trivial

private theorem Event.Sound.mono {A : Expr → StaticStack → Prop} {D : Distances} {V V' : Known}
    {ev : Event} (h : ev.Sound A D V) (le : V ≤ V') : ev.Sound A D V' :=
  ⟨h.1.mono le, h.2.mono le⟩

namespace ComesTo

variable {α β : Type} {A : Expr → StaticStack → Prop} {D : Distances} {V V' : Known} {scope : Scope}
  {P : Known → α → Prop} {events events' : List Event} {out : Except Interrupt α × Machine}

/-- Nothing happens. -/
theorem refl {r : Except Interrupt α} {m : Machine} (h : EndScoped A V P r)
    (stored : m.store.Scoped A V) (hscope : m.scope = scope) :
    ComesTo A D V scope P [] (r, m) :=
  ⟨V, Known.le_rfl, by simp, by simp, h, stored, hscope⟩

/-- Events may come first. -/
theorem after (h : ComesTo A D V' scope P events' out) (le : V ≤ V')
    (opened : ∀ o s, V'.opened o s ↔ V.opened o s ∨ .opened o s ∈ events)
    (sound : ∀ ev ∈ events, ev.Sound A D V') :
    ComesTo A D V scope P (events ++ events') out := by
  obtain ⟨V'', le', opened', sound', rest⟩ := h
  refine ⟨V'', Known.le_trans le le', fun o s => ?_, fun ev member => ?_, rest⟩
  · rw [opened', opened, List.mem_append, or_assoc]
  · rcases List.mem_append.mp member with member | member
    · exact (sound ev member).mono le'
    · exact sound' ev member

end ComesTo

private theorem ComesTo.cons {α : Type} {A : Expr → StaticStack → Prop} {D : Distances}
    {V V' : Known} {scope : Scope} {P : Known → α → Prop} {first : Event} {events : List Event}
    {out : Except Interrupt α × Machine} (le : V ≤ V')
    (opened : ∀ o s, V'.opened o s ↔ V.opened o s ∨ .opened o s = first)
    (sound : first.Sound A D V') (h : ComesTo A D V' scope P events out) :
    ComesTo A D V scope P (first :: events) out := by
  have single : ∀ ev ∈ [first], ev.Sound A D V' :=
    fun ev member => List.mem_singleton.mp member ▸ sound
  exact h.after le (fun o s => by rw [opened, List.mem_singleton]) single

private theorem ComesTo.snoc {α : Type} {A : Expr → StaticStack → Prop} {D : Distances} {V : Known}
    {scope : Scope} {P : Known → α → Prop} {last : Event} {events : List Event}
    {out : Except Interrupt α × Machine} (quiet : ∀ o s, last ≠ .opened o s)
    (sound : ∀ V', last.Sound A D V') (h : ComesTo A D V scope P events out) :
    ComesTo A D V scope P (events ++ [last]) out := by
  obtain ⟨V', le, opened, all, rest⟩ := h
  refine ⟨V', le, fun o s => ?_, fun ev member => ?_, rest⟩
  · rw [opened, List.mem_append, List.mem_singleton, or_iff_left (a := _ ∈ events) (quiet o s).symm]
  · rcases List.mem_append.mp member with member | member
    · exact all ev member
    · exact List.mem_singleton.mp member ▸ sound V'

namespace ScopedRun

open EvalM Event

variable {α β : Type} {A : Expr → StaticStack → Prop} {D : Distances} {V : Known} {scope : Scope}
  {P : Known → α → Prop} {Q : Known → β → Prop}

theorem pure {a : α} (h : P V a) : ScopedRun A D V scope P (pure a) fun _ => [] :=
  fun _ stored hscope => .refl h stored hscope

theorem failure (f : Failure) : ScopedRun A D V scope P (throw (.failure f)) fun _ => [] :=
  fun _ stored hscope => .refl trivial stored hscope

theorem fault (token : Token) (f : RuntimeFault) :
    ScopedRun A D V scope P (EvalM.fault token f) fun _ => [] :=
  failure _

theorem returned {v : Value} (h : v.Scoped A V) :
    ScopedRun A D V scope P (throw (.returned v)) fun _ => [] :=
  fun _ stored hscope => .refl h stored hscope

theorem bind {act : EvalM α} {next : α → EvalM β} {ev : Machine → List Event}
    {ev' : α → Machine → List Event} (h : ScopedRun A D V scope P act ev)
    (h' : ∀ V' a, V ≤ V' → P V' a → ScopedRun A D V' scope Q (next a) (ev' a)) :
    ScopedRun A D V scope Q (act >>= next) fun m => ev m ++ behind act ev' m := by
  intro m stored hscope
  obtain ⟨V', le, opened, sound, result, stored', hscope'⟩ := h m stored hscope
  simp only [outcome_bind, behind]
  generalize outcome act m = out at result stored' hscope' ⊢
  rcases out with ⟨r, m'⟩
  cases r with
  | ok a => exact (h' V' a le result m' stored' hscope').after le opened sound
  | error i =>
    simp only [List.append_nil]
    refine ⟨V', le, opened, sound, ?_, stored', hscope'⟩
    cases i with
    | failure f => trivial
    | returned v => exact result

theorem silent_bind {act : EvalM α} {next : α → EvalM β} {ev : α → Machine → List Event}
    (h : ScopedRun A D V scope P act fun _ => [])
    (h' : ∀ V' a, V ≤ V' → P V' a → ScopedRun A D V' scope Q (next a) (ev a)) :
    ScopedRun A D V scope Q (act >>= next) (behind act ev) := by
  have both := h.bind h'
  simp only [List.nil_append] at both
  exact both

theorem bind_silent {act : EvalM α} {next : α → EvalM β} {ev : Machine → List Event}
    (h : ScopedRun A D V scope P act ev)
    (h' : ∀ V' a, V ≤ V' → P V' a → ScopedRun A D V' scope Q (next a) fun _ => []) :
    ScopedRun A D V scope Q (act >>= next) ev := by
  have both := h.bind h'
  simp only [behind_nothing, List.append_nil] at both
  exact both

theorem mono {act : EvalM α} {ev : Machine → List Event} {P' : Known → α → Prop}
    (h : ScopedRun A D V scope P act ev) (weaken : ∀ V' a, V ≤ V' → P V' a → P' V' a) :
    ScopedRun A D V scope P' act ev := by
  intro m stored hscope
  obtain ⟨V', le, opened, sound, result, rest⟩ := h m stored hscope
  refine ⟨V', le, opened, sound, ?_, rest⟩
  generalize outcome act m = out at result
  rcases out with ⟨r, m'⟩
  cases r with
  | ok a => exact weaken V' a le result
  | error i =>
    cases i with
    | failure f => trivial
    | returned v => exact result

theorem get_bind {next : Machine → EvalM α} {ev : Machine → List Event}
    (h : ∀ m, m.store.Scoped A V → m.scope = scope →
      ComesTo A D V scope P (ev m) ((next m).outcome m)) :
    ScopedRun A D V scope P (get >>= next) ev := by
  intro m stored hscope
  rw [outcome_bind, outcome_get]
  exact h m stored hscope

theorem evaluated {act : EvalM α} {ev : Machine → List Event} {e : Expr}
    (reads : ∀ m, m.store.Scoped A V → m.scope = scope →
      (Event.evaluated D e m).Sound A D V)
    (h : ScopedRun A D V scope P act ev) :
    ScopedRun A D V scope P act fun m => .evaluated D e m :: ev m := by
  intro m stored hscope
  exact .cons Known.le_rfl (by simp) (reads m stored hscope) (h m stored hscope)

theorem inScope {t : Scope} {act : EvalM α} {ev : Machine → List Event}
    (h : ScopedRun A D V t P act ev) :
    ScopedRun A D V scope P (inScope t act) fun m => ev { m with scope := t } := by
  intro m stored hscope
  obtain ⟨V', le, opened, sound, result, stored', _⟩ := h { m with scope := t } stored rfl
  rw [outcome_inScope]
  exact ⟨V', le, opened, sound, result, stored', hscope⟩

theorem asCall {act : EvalM α} {ev : Machine → List Event} (paren : Token)
    (h : ScopedRun A D V scope P act ev) :
    ScopedRun A D V scope P (asCall act) fun m =>
      let begun := { m with depth := m.depth + 1 }
      .begins paren begun :: (ev begun ++ [.ends ((EvalM.asCall act).outcome m).2]) := by
  intro m stored hscope
  have inner := h { m with depth := m.depth + 1 } stored hscope
  have ended : ComesTo A D V scope P (ev { m with depth := m.depth + 1 })
      ((EvalM.asCall act).outcome m) := inner
  exact .cons Known.le_rfl (by simp) ⟨trivial, trivial⟩ (ended.snoc nofun fun _ => ⟨trivial, trivial⟩)

theorem catchReturn {act : EvalM Unit} {ev : Machine → List Event} {P : Known → Unit → Prop}
    (h : ScopedRun A D V scope P act ev) :
    ScopedRun A D V scope (fun V' r => ∀ v ∈ r, v.Scoped A V') (catchReturn act) ev := by
  intro m stored hscope
  obtain ⟨V', le, opened, sound, result, stored', hscope'⟩ := h m stored hscope
  rw [outcome_catchReturn]
  rcases out : outcome act m with ⟨r, m'⟩
  rw [out] at result stored' hscope'
  cases r with
  | ok a => exact ⟨V', le, opened, sound, by simp [EndScoped], stored', hscope'⟩
  | error i =>
    cases i with
    | failure f => exact ⟨V', le, opened, sound, trivial, stored', hscope'⟩
    | returned v =>
      refine ⟨V', le, opened, sound, fun v' same => ?_, stored', hscope'⟩
      obtain rfl := Option.mem_some_iff.mp same
      exact result

theorem keeping {act : EvalM α} {ev : Machine → List Event} (h : ScopedRun A D V scope P act ev)
    (own : List String) (traced : TracedRun own act ev)
    (made : ∀ m : Store, m.Scoped A V → scope.frame < m.frames.size) :
    ScopedRun A D V scope (fun V' a => P V' a ∧ V.Keeps scope.frame own V') act ev := by
  intro m stored hscope
  have present : m.scope.frame < m.store.frames.size := hscope ▸ made m.store stored
  have names := (traced m present).names m.scope.frame present
  obtain ⟨V', le, opened, sound, result, stored', hscope'⟩ := h m stored hscope
  refine ⟨V', le, opened, sound, ?_, stored', hscope'⟩
  have keeps : V.Keeps scope.frame own V' := by
    intro x held
    rw [hscope] at names
    exact (names x ((stored'.holds _ _).mp held)).imp (stored.holds _ _).mpr And.right
  generalize outcome act m = out at result
  obtain ⟨r, m'⟩ := out
  rcases r with (f | v) | a
  · trivial
  · exact result
  · exact ⟨result, keeps⟩

private theorem newScope (origin : Origin) {bindings : Bindings} {s : Scope}
    (given : ∀ name, bindings.contains name → name ∈ origin.given)
    (values : ∀ (name : String) v, bindings[name]? = some v → v.Scoped A V) :
    ScopedRun A D V scope (fun V' t => ∃ f, t = ⟨f, s.frames⟩ ∧ V'.opened origin t ∧
        ∀ name, V'.holds f name ↔ bindings.contains name)
      (onStore (·.newScope bindings (some s))) fun m =>
        entering origin (m.store.newScope bindings (some s)).1 bindings := by
  intro m stored hscope
  have stored' := stored.newScope origin values (some s)
  have later := V.le_opening origin (m.store.newScope bindings (some s)).1 bindings
  rw [outcome_onStore]
  refine ⟨_, later, fun o t => ?_, ?_, ⟨m.store.frames.size, rfl, .inr ⟨rfl, rfl⟩, fun name => ?_⟩,
    stored', hscope⟩
  · simp [entering, Known.opening]
  · intro ev member
    rcases List.mem_cons.mp member with rfl | member
    · exact ⟨Nat.ne_of_gt stored.globals, trivial⟩
    · obtain rfl := List.mem_singleton.mp member
      exact ⟨⟨origin, _, .inr ⟨rfl, rfl⟩, rfl, given⟩, trivial⟩
  · refine ⟨fun held => held.elim (fun old => ?_) And.right, fun member => .inr ⟨rfl, member⟩⟩
    exact absurd (stored.made_of_holds old) (Nat.lt_irrefl _)

theorem opening (origin : Origin) (ev : Scope → Machine → List Event) {bindings : Bindings}
    {s : Scope} {next : Scope → EvalM α}
    (given : ∀ name, bindings.contains name → name ∈ origin.given)
    (values : ∀ (name : String) v, bindings[name]? = some v → v.Scoped A V)
    (h : ∀ V' f, V ≤ V' → V'.opened origin ⟨f, s.frames⟩ →
      (∀ name, V'.holds f name ↔ bindings.contains name) →
      ScopedRun A D V' scope P (next ⟨f, s.frames⟩) (ev ⟨f, s.frames⟩)) :
    ScopedRun A D V scope P (onStore (·.newScope bindings (some s)) >>= next) fun m =>
      entering origin (m.store.newScope bindings (some s)).1 bindings ++
        ev (m.store.newScope bindings (some s)).1
          { m with store := (m.store.newScope bindings (some s)).2 } := by
  refine (newScope origin given values).bind fun V' t le made => ?_
  obtain ⟨f, rfl, opened, held⟩ := made
  exact h V' f le opened held

theorem opening_keeping (origin : Origin) (ev : Scope → Machine → List Event) {bindings : Bindings}
    {s : Scope} {next : Scope → EvalM α}
    (given : ∀ name, bindings.contains name → name ∈ origin.given)
    (values : ∀ (name : String) v, bindings[name]? = some v → v.Scoped A V)
    (made : ∀ m : Store, m.Scoped A V → scope.frame < m.frames.size)
    (h : ∀ V' f, V ≤ V' → V.Keeps scope.frame [] V' → V'.opened origin ⟨f, s.frames⟩ →
      (∀ name, V'.holds f name ↔ bindings.contains name) →
      ScopedRun A D V' scope P (next ⟨f, s.frames⟩) (ev ⟨f, s.frames⟩)) :
    ScopedRun A D V scope P (onStore (·.newScope bindings (some s)) >>= next) fun m =>
      entering origin (m.store.newScope bindings (some s)).1 bindings ++
        ev (m.store.newScope bindings (some s)).1
          { m with store := (m.store.newScope bindings (some s)).2 } := by
  have frame := (newScope (D := D) origin given values).keeping []
    (fun _ _ => .opened origin bindings s) made
  refine frame.bind fun V' t le made => ?_
  obtain ⟨⟨f, rfl, opened, held⟩, keeps⟩ := made
  exact h V' f le keeps opened held

/-! The steps that touch the state. -/

theorem ofResult {token : Token} {r : Except RuntimeFault α} (h : ∀ a, r = .ok a → P V a) :
    ScopedRun A D V scope P (ofResult token r) fun _ => [] := by
  cases r with
  | ok a => exact pure (h a rfl)
  | error f => exact fault token f

private theorem ofOption {token : Token} {f : RuntimeFault} {r : Option α}
    (h : ∀ a, r = some a → P V a) :
    ScopedRun A D V scope P (ofOption token f r) fun _ => [] := by
  cases r with
  | some a => exact pure (h a rfl)
  | none => exact fault token f

theorem lookUp (id : ExprId) (name : Token) :
    ScopedRun A D V scope (Value.Scoped A) (lookUp D id name) fun _ => [] := by
  refine get_bind fun m stored hscope => ?_
  cases D[id]? with
  | some d => exact ofOption (fun v found => stored.getAt? found) m stored hscope
  | none => exact ofOption (fun v found => stored.get? found) m stored hscope

private theorem holder (id : ExprId) (name : Token) :
    ScopedRun A D V scope (fun V' f => V'.holds f name.lexeme) (holder D id name) fun _ => [] := by
  refine get_bind fun m stored hscope => ?_
  cases D[id]? with
  | some d =>
    refine ofOption (fun f found => ?_) m stored hscope
    exact (stored.holds f name.lexeme).mpr (Option.filter_eq_some_iff.mp found).2
  | none =>
    refine ofOption (fun f found => ?_) m stored hscope
    exact (stored.holds f name.lexeme).mpr
      (List.find?_some (p := (m.store.holds · name.lexeme)) found)

private theorem modifyStore {change : Machine → Store} (V' : Known) (le : V ≤ V')
    (opened : V'.opened = V.opened) {P : Known → PUnit → Prop} (end_ : P V' ⟨⟩)
    (h : ∀ m : Machine, m.store.Scoped A V → m.scope = scope → (change m).Scoped A V') :
    ScopedRun A D V scope P (modify fun m => { m with store := change m }) fun _ => [] := by
  intro m stored hscope
  rw [outcome_modify]
  exact ⟨V', le, by simp [opened], by simp, end_, h m stored hscope, hscope⟩

private theorem marked {act : EvalM α} {first : Machine → Event} {ev : Machine → List Event}
    (quiet : ∀ m o s, first m ≠ .opened o s)
    (event : ∀ m, m.store.Scoped A V → m.scope = scope → (first m).Sound A D V)
    (h : ScopedRun A D V scope P act ev) :
    ScopedRun A D V scope P act fun m => first m :: ev m := by
  intro m stored hscope
  refine .cons Known.le_rfl (fun o s => ?_) (event m stored hscope) (h m stored hscope)
  exact (or_iff_left (quiet m o s).symm).symm

theorem assign (id : ExprId) (name : Token) (value : Expr) {v : Value} (hv : v.Scoped A V)
    (event : ∀ m, m.store.Scoped A V → m.scope = scope →
      (Event.assigns D (.assign id name value) v m).Scoped A D V) :
    ScopedRun A D V scope (fun _ _ => True) (assign D id name v)
      fun m => [.assigns D (.assign id name value) v m] := by
  refine marked (fun _ _ _ same => by cases same)
    (fun m stored hscope => ⟨event m stored hscope, trivial⟩) ?_
  refine (holder id name).bind_silent fun V' f le holds => ?_
  have later := V'.le_setting f name.lexeme
  refine modifyStore _ later rfl trivial fun m stored _ => ?_
  exact stored.setLocal (stored.made_of_holds holds) (hv.mono (Known.le_trans le later))

/-- A name is defined in a frame that is made.  The value may be scoped for the very reason that
the frame holds the name. -/
theorem define {s : Stmt} {name : String} {v : Value}
    (made : ∀ m : Store, m.Scoped A V → scope.frame < m.frames.size)
    (event : ∀ m, m.store.Scoped A V → m.scope = scope → (Event.declares s v m).Scoped A D V)
    (hv : ∀ V', V ≤ V' → V'.holds scope.frame name → v.Scoped A V') :
    ScopedRun A D V scope (fun V' _ => V'.holds scope.frame name) (define name v)
      fun m => [.declares s v m] := by
  refine marked (fun _ _ _ same => by cases same)
    (fun m stored hscope => ⟨event m stored hscope, trivial⟩) ?_
  have later := V.le_setting scope.frame name
  refine modifyStore (V.setting scope.frame name) later rfl (.inr ⟨rfl, rfl⟩)
    fun m stored hscope => ?_
  rw [Store.define, hscope]
  exact stored.setLocal (made m.store stored) (hv _ later (.inr ⟨rfl, rfl⟩))

theorem setField (o : Object) (name : Token) {v : Value} (hv : v.Scoped A V) :
    ScopedRun A D V scope (fun _ _ => True) (setField o name.lexeme v)
      fun m => [.sets o name v m] :=
  marked (fun _ _ _ same => by cases same) (fun _ _ _ => ⟨trivial, trivial⟩)
    (modifyStore V Known.le_rfl rfl trivial fun _ stored _ => stored.setField o name.lexeme hv)

theorem expectObject {v : Value} (hv : v.Scoped A V) (name : Token) :
    ScopedRun A D V scope (fun V' o => o.kind.Scoped A V') (expectObject v name) fun _ => [] := by
  cases v with
  | object o => exact pure hv
  | _ => exact fault _ _

theorem expectCallable (limit : Option Nat) {v : Value} (hv : v.Scoped A V) (given : Nat)
    (paren : Token) :
    ScopedRun A D V scope (fun V' c => (Value.callable c).Scoped A V' ∧ given = c.arity)
      (expectCallable limit v given paren) fun _ => [] := by
  cases v with
  | callable c =>
    refine get_bind fun m stored hscope => ?_
    split
    · exact fault _ _ m stored hscope
    · rename_i arity
      split
      · exact fault _ _ m stored hscope
      · exact .refl ⟨hv, Decidable.not_not.mp arity⟩ stored hscope
  | _ => exact fault _ _

theorem readClock (clock : Nat → Float) :
    ScopedRun A D V scope (Value.Scoped A) (readClock clock) fun _ => [] :=
  fun _ stored hscope => .refl trivial stored hscope

theorem print (sink : Sink) (line : String) :
    ScopedRun A D V scope (fun _ _ => True) (print sink line) fun m => [.prints line m] := by
  refine marked (fun _ _ _ same => by cases same) (fun _ _ _ => ⟨trivial, trivial⟩) ?_
  cases sink with
  | working => exact fun _ stored hscope => .refl trivial stored hscope
  | broken text => exact failure _

theorem newObject {k : Class} (hk : k.Scoped A V) :
    ScopedRun A D V scope (fun V' o => o.kind.Scoped A V') (onStore (·.newObject k))
      fun _ => [] :=
  fun _ stored hscope => .refl hk (stored.newObject k) hscope

theorem contains_insert_empty {name other : String} {v : Value} :
    ((∅ : Bindings).insert name v).contains other ↔ other = name := by
  by_cases same : name = other
  · simp [same]
  · simp [TreeMap.contains_insert, same, Ne.symm same]

theorem insert_empty_scoped {name other : String} {u v : Value} (hu : u.Scoped A V)
    (found : ((∅ : Bindings).insert name u)[other]? = some v) : v.Scoped A V := by
  rw [TreeMap.getElem?_insert] at found
  split at found
  · exact Option.some.inj found ▸ hu
  · simp at found

theorem bindTo {method : Closure} (hm : method.ScopedMethod A V) {o : Object}
    (ho : o.kind.Scoped A V) :
    ScopedRun A D V scope (fun V' c => c.Scoped A V' ∧ c.decl = method.decl)
      (onStore (·.bind method o)) (ofBind method o) := by
  obtain ⟨Γ, enclosing, context, stands, wellFormed, accepted⟩ := hm
  intro m stored hscope
  have made : ScopedRun A D V scope _ _ _ :=
    newScope (s := method.scope) (.receiver method.decl)
      (fun name member => List.mem_singleton.mpr (contains_insert_empty.mp member))
      fun name v => insert_empty_scoped (u := .object o) ho
  obtain ⟨V', le, opened, sound, ⟨f, here, opened', held⟩, stored', hscope'⟩ := made m stored hscope
  refine ⟨V', le, opened, sound, ⟨⟨Γ.receiving method.decl, enclosing, context, ?_, wellFormed,
    accepted⟩, rfl⟩, stored', hscope'⟩
  obtain rfl : m.store.frames.size = f := congrArg Scope.frame here
  change Stands V' none _ ⟨m.store.frames.size, method.scope.frames⟩
  refine .inside opened' (fun name member _ => (held name).mpr ?_) (stands.mono le)
  simpa [TreeMap.contains_insert] using member

private theorem bindMethod {method : Closure} (hm : method.ScopedMethod A V) {o : Object}
    (ho : o.kind.Scoped A V) :
    ScopedRun A D V scope (Value.Scoped A) (bindMethod method o) (ofBind method o) :=
  (bindTo hm ho).bind_silent fun _ _ _ hc => pure hc.1

theorem getProperty {v : Value} (hv : v.Scoped A V) (name : Token) :
    ScopedRun A D V scope (Value.Scoped A) (getProperty v name)
      fun m => .takes v name m :: ofProperty v name m := by
  refine marked (fun _ _ _ same => by cases same) (fun _ _ _ => ⟨trivial, trivial⟩) ?_
  cases v with
  | object o =>
    intro m stored hscope
    simp only [EvalM.getProperty, ofProperty, outcome_bind, outcome_store]
    cases field : m.store.field? o name.lexeme with
    | some v => exact .refl (stored.objects o.id name.lexeme v field) stored hscope
    | none =>
      dsimp only
      cases found : o.kind.method? name.lexeme with
      | none => exact fault _ _ m stored hscope
      | some method => exact bindMethod (Class.Scoped.method? hv found) hv m stored hscope
  | _ => exact fault _ _

theorem superMethod (id : ExprId) (keyword method : Token) :
    ScopedRun A D V scope (Value.Scoped A) (superMethod D id keyword method)
      (ofSuper D id method) := by
  refine get_bind fun m stored hscope => ?_
  unfold ofSuper
  cases D[id]? with
  | none => exact fault _ _ m stored hscope
  | some d =>
    simp only [EvalM.ofOption, pure_bind]
    cases d with
    | zero =>
      change ComesTo A D V scope _ [] _
      split
      · exact fault _ _ m stored hscope
      · exact fault _ _ m stored hscope
    | succ inner =>
      have superclass : ∀ v, m.store.getAt? m.scope (inner + 1) "super" = some v → v.Scoped A V :=
        fun v found => stored.getAt? found
      have receiver : ∀ v, m.store.getAt? m.scope inner "this" = some v → v.Scoped A V :=
        fun v found => stored.getAt? found
      dsimp only
      generalize m.store.getAt? m.scope (inner + 1) "super" = s,
        m.store.getAt? m.scope inner "this" = r at superclass receiver ⊢
      cases s with
      | none => exact fault _ _ m stored hscope
      | some v =>
        cases v with
        | callable c =>
          cases c with
          | ofClass k =>
            cases r with
            | none => exact fault _ _ m stored hscope
            | some u =>
              cases u with
              | object o =>
                simp only
                cases found : k.method? method.lexeme with
                | none => exact fault _ _ m stored hscope
                | some f =>
                  have scopedMethod := Class.Scoped.method? (superclass _ rfl) found
                  exact bindMethod scopedMethod (receiver _ rfl) m stored hscope
              | _ => exact fault _ _ m stored hscope
          | _ => exact fault _ _ m stored hscope
        | _ => exact fault _ _ m stored hscope

end ScopedRun

end LoxLang
