/-!
Scopes at run time.  A frame holds the variables of one execution of a block, call or class body;
a scope is a frame together with the frames around it, innermost first.  The chain of a scope is
fixed when the scope is made, and its end is always reached.
-/

set_option autoImplicit false
set_option relaxedAutoImplicit false

namespace LoxLang

/-- The address of a frame. -/
abbrev FrameId := Nat

/-- A frame and the frames around it. -/
@[ext]
structure Scope where
  frame : FrameId
  outer : List FrameId
  deriving DecidableEq

namespace Scope

def globals : Scope := ⟨0, []⟩

/-- The frames of a scope, innermost first. -/
def frames (s : Scope) : List FrameId := s.frame :: s.outer

/-- The scope with a new frame inside another one, if any. -/
def inside (frame : FrameId) : Option Scope → Scope
  | none => ⟨frame, []⟩
  | some s => ⟨frame, s.frames⟩

/-- The scope a number of frames out. -/
def ancestor? (s : Scope) (distance : Nat) : Option Scope :=
  match s.frames.drop distance with
  | [] => none
  | frame :: outer => some ⟨frame, outer⟩

/-- The scope some frames out is the one whose frames are left when that many are dropped. -/
theorem ancestor?_eq_some_iff {s t : Scope} {distance : Nat} :
    s.ancestor? distance = some t ↔ s.frames.drop distance = t.frames := by
  unfold ancestor?
  split <;> rename_i h
  · rw [h]
    simp [frames]
  · rw [h]
    simp [frames, Scope.ext_iff]

private theorem ancestor?_eq_none_iff {s : Scope} {distance : Nat} :
    s.ancestor? distance = none ↔ s.frames.length ≤ distance := by
  rw [← List.drop_eq_nil_iff]
  unfold ancestor?
  split <;> rename_i h <;> simp [h]

theorem ancestor?_add (s : Scope) (a b : Nat) :
    s.ancestor? (a + b) = (s.ancestor? a).bind (·.ancestor? b) := by
  cases h : s.ancestor? a with
  | none =>
    rw [ancestor?_eq_none_iff] at h
    simp [ancestor?_eq_none_iff, Nat.le_trans h (Nat.le_add_right a b)]
  | some t =>
    rw [ancestor?_eq_some_iff] at h
    simp only [Option.bind_some]
    unfold ancestor?
    rw [← h, List.drop_drop]

end Scope

end LoxLang
