import TypedMirror.Text

/-!
# Quoted text

Inside quotes a backslash makes the character after it part of the contents, so a quoted stretch
ends at the first quote that no backslash covers.  `close` finds that end, and `close_append` says
that it only splits the text.
-/

namespace TypedMirror.Quoted

/-- The contents up to the closing `quote`, and the text after it. -/
def close (quote : Char) : Text → Option (Text × Text)
  | [] => none
  | '\\' :: [] => none
  | '\\' :: c :: r => (close quote r).map fun p => ('\\' :: c :: p.1, p.2)
  | c :: r => if c = quote then some ([], r) else (close quote r).map fun p => (c :: p.1, p.2)

theorem close_append {quote : Char} {t contents rest : Text}
    (h : close quote t = some (contents, rest)) : t = contents ++ quote :: rest := by
  fun_induction close quote t generalizing contents with
  | case1 => simp at h
  | case2 => simp at h
  | case3 c r ih =>
    obtain ⟨p, hp, he⟩ := Option.map_eq_some_iff.1 h
    cases he
    simp [ih hp]
  | case4 => simp_all
  | case5 c r _ _ _ ih =>
    obtain ⟨p, hp, he⟩ := Option.map_eq_some_iff.1 h
    cases he
    simp [ih hp]

/-- The text between single quotes, with a backslash before each backslash and each quote. -/
def write (t : Text) : Text :=
  '\'' :: t.flatMap (fun c => if c = '\\' ∨ c = '\'' then ['\\', c] else [c]) ++ ['\'']

end TypedMirror.Quoted
