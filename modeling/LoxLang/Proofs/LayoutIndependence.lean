import LoxLang.Proofs.RelinedSessions

/-!
Layout is insignificant.  A text that scans without a fault may be laid out anew, with any blanks
and comments between its lexemes: it has the same tokens, and in every session it does the same, but
for the lines that errors and stored functions tell of.
-/

set_option autoImplicit false
set_option relaxedAutoImplicit false

namespace LoxLang

/-- What a token is apart from its line: its kind, its lexeme and the literal that it stands for. -/
def Token.content (t : Token) : Kind × String × String := (t.kind, t.lexeme, t.literalText)

private theorem Scanned.SameButLines.content {a b : Scanned} (h : a.SameButLines b) :
    b.tokens.map Token.content = a.tokens.map Token.content := by
  have own : Token.content = Token.content ∘ Token.reline oneLine := rfl
  rw [own, ← List.map_map, h.tokens, List.map_map]

/-- If a text scans without a fault and its lexemes are joined by blanks and comments, the new text
scans without a fault into tokens of the same kinds, lexemes and literals.  From every session the
run of the one text and the run of the other end in the same way, but for the lines of errors, and
leave the same session, with the same lines printed, but for the lines on which stored functions
were declared; and so do their evaluations, which give the same value. -/
theorem layout_insignificant (config : Config) (s : Session) {source source' : String}
    (sound : (scan source).faults = [])
    (joined : Joined ((scan source).tokens.map Token.lexeme) source'.toList) :
    ((scan source').faults = [] ∧
      (scan source').tokens.map Token.content = (scan source).tokens.map Token.content) ∧
    ((s.run config source').1.mapError (SessionError.reline oneLine) =
        (s.run config source).1.mapError (SessionError.reline oneLine) ∧
      (s.run config source).2.SameButLines (s.run config source').2) ∧
    ((s.evaluate config source').1.map (Value.reline oneLine)).mapError
          (SessionError.reline oneLine) =
        ((s.evaluate config source).1.map (Value.reline oneLine)).mapError
          (SessionError.reline oneLine) ∧
      (s.evaluate config source).2.SameButLines (s.evaluate config source').2 := by
  have same := scan_joined sound joined
  have alike := Session.SameButLines.refl s
  exact ⟨⟨same.faults', same.content⟩, alike.run config same, alike.evaluate config same⟩

/-- A string over two lines, a comment between two lexemes, and a fault further down. -/
theorem fault_relaid :
    let config : Config := ⟨none, .working, fun _ => 0, 100⟩
    let source := "print\"x\ny\"+\"z\";-true;"
    let source' := "print // the first\n\t\"x\ny\" +\r\"z\" ;\n\n- true ;"
    let run := Session.initial.run config source'
    (scan source).faults = [] ∧
      Joined ((scan source).tokens.map Token.lexeme) source'.toList ∧
      run.1.mapError (SessionError.reline oneLine) =
        .error (.failed (.fault ⟨0, .operandNotNumber⟩)) ∧
      run.2.lines = ["x\nyz"] := by
  intro config source source' run
  have sound : (scan source).faults = [] := by decide +kernel
  have lexemes : (scan source).tokens.map Token.lexeme =
      ["print", "\"x\ny\"", "+", "\"z\"", ";", "-", "true", ";"] := by decide +kernel
  have joined : Joined ((scan source).tokens.map Token.lexeme) source'.toList := by
    have comment : Gap ('/' :: '/' :: (" the first".toList ++ '\n' :: ['\t'])) :=
      .comment (by decide +kernel) (.blank (by decide) .none)
    have text : source'.toList = "print".toList ++
        ' ' :: ('/' :: '/' :: (" the first".toList ++ '\n' :: ['\t']) ++ ("\"x\ny\"".toList ++
        ' ' :: ([] ++ ("+".toList ++
        '\r' :: ([] ++ ("\"z\"".toList ++
        ' ' :: ([] ++ (";".toList ++
        '\n' :: (['\n'] ++ ("-".toList ++
        ' ' :: ([] ++ ("true".toList ++
        ' ' :: ([] ++ ";".toList))))))))))))) := by decide +kernel
    rw [lexemes, text]
    exact .more (by decide) comment <| .more (by decide) .none <| .more (by decide) .none <|
      .more (by decide) .none <| .more (by decide) (.blank (by decide) .none) <|
      .more (by decide) .none <| .more (by decide) .none <| .one ";"
  obtain ⟨_, ⟨fails, left⟩, _⟩ := layout_insignificant config Session.initial sound joined
  refine ⟨sound, joined, fails.trans ?_, (congrArg Array.toList left.machine.printed).trans ?_⟩
  · decide +kernel
  · decide +kernel

end LoxLang
