import LoxLang.Proofs.CutSessions

/-!
Sessions with a sink that refuses every line.  An operation stops at its first print, and the
session goes on from the state in which that print is made; an operation that prints nothing is the
same with any sink.
-/

set_option autoImplicit false
set_option relaxedAutoImplicit false

namespace LoxLang

open EvalM Event

/-- A print that is come to: its line, and the state before the line is printed. -/
structure PrintPoint where
  line : String
  machine : Machine

def PrintPoint.of? : Event → Option PrintPoint
  | .prints line m => some ⟨line, m⟩
  | _ => none

def PrintPoint.ofEvents (evs : List Event) : List PrintPoint := evs.filterMap of?

/-- The prints that an operation comes to. -/
def Session.printPoints (s : Session) (r : Request) : List PrintPoint :=
  PrintPoint.ofEvents (s.events r)

/-- What is given from outside, with another sink. -/
abbrev Config.withSink (config : Config) (sink : Sink) : Config := { config with sink }

/-! What is printed. -/

def Prints (m : Machine) (evs : List Event) (m' : Machine) : Prop :=
  m'.printed.toList = m.printed.toList ++ (PrintPoint.ofEvents evs).map PrintPoint.line

namespace Prints

variable {m m₁ m' : Machine} {evs evs' : List Event}

private theorem silent (printed : m'.printed = m.printed) (none : PrintPoint.ofEvents evs = []) :
    Prints m evs m' := by
  rw [Prints, printed, none]
  exact (List.append_nil _).symm

private theorem trans (h : Prints m evs m₁) (h' : Prints m₁ evs' m') : Prints m (evs ++ evs') m' :=
  by
  rw [Prints, h', h, PrintPoint.ofEvents, PrintPoint.ofEvents, PrintPoint.ofEvents,
    List.filterMap_append, List.map_append, List.append_assoc]

end Prints

def Invariant.printing : Invariant where
  tree := .any
  value _ _ := True
  event _ := True
  path _ := Prints
  failure _ := True

private theorem Invariant.printing_kept {w : Surroundings} (working : w.config.sink = .working) :
    printing.Kept w where
  left _ _ _ := trivial
  right _ _ _ := trivial
  still _ _ _ printed := .silent printed rfl
  trans := .trans
  mono h _ := h
  within h h' _ _ := .trans h h'
  calls {_ m paren _ m'} _ h := by
    have begins : Prints m [.begins paren { m with depth := m.depth + 1 }]
        { m with depth := m.depth + 1 } := .silent rfl rfl
    have ends : Prints m' [.ends { m' with depth := m'.depth - 1 }]
        { m' with depth := m'.depth - 1 } := .silent rfl rfl
    exact begins.trans (Prints.trans h ends)
  later _ _ := trivial
  toValues := .any (fun _ _ => trivial) fun _ => trivial
  toFailures := .any fun _ => trivial
  function _ _ := trivial
  evaluated _ _ := .silent rfl rfl
  takes _ _ := .silent rfl rfl
  prints _ printed := printed working ▸ Array.toList_push
  misses _ _ _ := .silent rfl rfl
  assigns _ _ _ := .silent rfl rfl
  declares _ _ _ _ := .silent rfl rfl
  sets _ _ _ := .silent rfl rfl
  enters _ _ _ _ := .silent rfl rfl
  newObject _ _ := ⟨.silent rfl rfl, trivial⟩
  binds _ _ _ _ _ := ⟨.silent rfl rfl, trivial⟩
  inherits _ _ _ _ := .silent rfl rfl
  names _ _ _ _ _ := ⟨.silent rfl rfl, trivial⟩

private theorem Session.perform_lines {s : Session} {r : Request}
    (working : r.config.sink = .working) (globals : s.interpreter.machine.scope = .globals) :
    (s.perform r).2.lines = s.lines ++ (s.printPoints r).map PrintPoint.line := by
  obtain ⟨_, printed⟩ := (perform_kept (fun _ => Invariant.printing_kept working) globals
    (fun _ _ => trivial) (s.reads_any r) trivial).path
  exact printed

/-! Where prints are refused. -/

namespace Barrier

def ofSink (text : String) : Barrier where
  begins _ _ := none
  prints _ m := some ⟨.sink text, m⟩

private theorem ofSink_between (text : String) (config : Config) :
    (ofSink text).Between (config.withSink (.broken text)) (config.withSink .working) where
  bound := rfl
  clock := rfl
  print _ _ := rfl
  call f given paren := by
    refine .same fun m => ?_
    unfold behind
    split <;> rfl

private theorem first?_ofSink (text : String) (evs : List Event) :
    (ofSink text).first? evs =
      (PrintPoint.ofEvents evs).head?.map fun p => ⟨.sink text, p.machine⟩ := by
  induction evs with
  | nil => rfl
  | cons ev evs ih =>
    rw [first?_cons, PrintPoint.ofEvents]
    cases ev with
    | prints line m => rfl
    | _ => exact ih

end Barrier

/-- Behind every history, with a sink that refuses every line an operation that prints nothing is
what it is with a working sink.  Any other operation answers the failure of the sink, and leaves the
state in which the first print is made, but at the global scope and with no call active, as there
were before it; the flag for failed executions is up. -/
theorem broken_sink_stops_at_first_print (history : List Request) (config : Config)
    (operation : Operation) (text : String) :
    let s := Session.initial.performAll history
    let working : Request := ⟨config.withSink .working, operation⟩
    let broken := s.perform ⟨config.withSink (.broken text), operation⟩
    let prints := s.printPoints working
    (s.perform working).2.lines = s.lines ++ prints.map PrintPoint.line ∧
      match prints with
      | [] => broken = s.perform working
      | first :: _ =>
        broken.1.error? = some (.failed (.sink text)) ∧
          broken.2 = { (s.perform working).2 with
            interpreter := { (s.perform working).2.interpreter with
              machine := { first.machine with scope := .globals, depth := 0 } }
            hadRuntimeError := true } := by
  intro s working broken prints
  have scope : s.interpreter.machine.scope = .globals := Session.performAll_scope rfl history
  have depth : s.interpreter.machine.depth = 0 := Session.initial.performAll_depth history
  refine ⟨Session.perform_lines rfl scope, ?_⟩
  have stops := Session.perform_cut (Barrier.ofSink_between text config) scope operation
  rw [Barrier.first?_ofSink] at stops
  cases found : prints with
  | nil =>
    rw [show PrintPoint.ofEvents _ = _ from found] at stops
    exact stops
  | cons first others =>
    rw [show PrintPoint.ofEvents _ = _ from found] at stops
    refine ⟨stops.1, stops.2.trans ?_⟩
    rw [Session.stoppedAt, Machine.at, scope, depth]

/-- What a call does before its first print stays, what it would do behind that print is not
done. -/
example :
    let config : Config := ⟨none, .broken "closed", fun _ => 0, 100⟩
    let source := "var a = 1; fun f() { a = 2; print a; a = 3; } f();"
    ((Session.initial.run config source).2.interpreter.machine.store.get? .globals "a").map
      Value.text = some "2" := by
  decide +kernel

end LoxLang
