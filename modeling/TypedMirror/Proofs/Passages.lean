import TypedMirror.Proofs.Deflation

/-!
# Passages that are found again

A query is split where its literals stand.  Passages that stand one after the other are split into
the same passages again if each of them, taken by itself, is a single one.

* `Quoted.close_append_right` — the end of a literal does not depend on what follows it;
* `Passage.split_flatMap` — sound passages are found again;
* `Passage.sound_of_mem_split`, `Passage.split_tail` — what is found in a query.
-/

namespace TypedMirror

namespace Quoted

variable {quote : Char} {t contents rest : Text}

/-- Only a backslash covers the character after it. -/
theorem close_cons {c : Char} {r : Text} (hc : c ≠ '\\') : close quote (c :: r) =
    if c = quote then some ([], r) else (close quote r).map fun p => (c :: p.1, p.2) := by
  rw [close]
  · exact fun h _ => hc h
  · exact fun _ _ h _ => hc h

theorem ne_cover {c : Char} {r : Text} (hlast : c = '\\' → r = [] → False)
    (hmore : ∀ d s, c = '\\' → r = d :: s → False) : c ≠ '\\' := by
  intro hc
  cases r with
  | nil => exact hlast hc rfl
  | cons d r => exact hmore d r hc rfl

theorem close_append_right (h : close quote t = some (contents, rest)) (u : Text) :
    close quote (t ++ u) = some (contents, rest ++ u) := by
  fun_induction close quote t generalizing contents with
  | case1 => cases h
  | case2 => cases h
  | case3 c r ih =>
    obtain ⟨p, hp, heq⟩ := Option.map_eq_some_iff.1 h
    cases heq
    show (close quote (r ++ u)).map _ = _
    rw [ih hp]
    rfl
  | case4 r hlast hmore =>
    cases h
    rw [List.cons_append, close_cons (ne_cover hlast hmore), if_pos rfl]
  | case5 c r hlast hmore hc ih =>
    obtain ⟨p, hp, heq⟩ := Option.map_eq_some_iff.1 h
    cases heq
    rw [List.cons_append, close_cons (ne_cover hlast hmore), if_neg hc, ih hp]
    rfl

/-- The contents of a literal are closed by its quote, and by nothing before it. -/
theorem close_contents (h : close quote t = some (contents, rest)) :
    close quote (contents ++ [quote]) = some (contents, []) := by
  fun_induction close quote t generalizing contents with
  | case1 => cases h
  | case2 => cases h
  | case3 c r ih =>
    obtain ⟨p, hp, heq⟩ := Option.map_eq_some_iff.1 h
    cases heq
    show (close quote (p.1 ++ [quote])).map _ = _
    rw [ih hp]
    rfl
  | case4 r hlast hmore =>
    cases h
    rw [List.nil_append, close_cons (ne_cover hlast hmore), if_pos rfl]
  | case5 c r hlast hmore hc ih =>
    obtain ⟨p, hp, heq⟩ := Option.map_eq_some_iff.1 h
    cases heq
    rw [List.cons_append, close_cons (ne_cover hlast hmore), if_neg hc, ih hp]
    rfl

end Quoted

namespace Passage

variable {t tail contents rest : Text} {q : Char} {p : Passage} {ps : List Passage}

/-- No quote stands before that of the literal, and the literal ends where its contents do. -/
structure Sound (p : Passage) : Prop where
  before : ∀ c ∈ p.before, isQuote c = false
  quote : isQuote p.quote = true
  contents : Quoted.close p.quote (p.contents ++ [p.quote]) = some (p.contents, [])

theorem split_of_close {r : Text} (hq : t.dropWhile (!isQuote ·) = q :: r)
    (hc : Quoted.close q r = some (contents, rest)) :
    split t = (⟨t.takeWhile (!isQuote ·), q, contents⟩ :: (split rest).1, (split rest).2) := by
  rw [split]
  split
  · rename_i heq
    cases hq.symm.trans heq
  · rename_i heq
    cases hq.symm.trans heq
    split
    · rename_i heq
      cases hc.symm.trans heq
    · rename_i heq
      cases hc.symm.trans heq
      rfl

theorem split_append (hp : p.Sound) (rest : Text) :
    split (p.text ++ rest) = (p :: (split rest).1, (split rest).2) := by
  have hbefore : ∀ c ∈ p.before, (!isQuote c) = true := fun c hc => by rw [hp.before c hc]; rfl
  have htext : p.text ++ rest = p.before ++ p.quote :: (p.contents ++ [p.quote] ++ rest) := by
    simp [text]
  have hdrop : (p.text ++ rest).dropWhile (!isQuote ·) =
      p.quote :: (p.contents ++ [p.quote] ++ rest) := by
    rw [htext, List.dropWhile_append_of_pos hbefore, List.dropWhile_cons_of_neg (by simp [hp.quote])]
  have htake : (p.text ++ rest).takeWhile (!isQuote ·) = p.before := by
    rw [htext, List.takeWhile_append_of_pos hbefore, List.takeWhile_cons_of_neg (by simp [hp.quote]),
      List.append_nil]
  have hclose := Quoted.close_append_right hp.contents rest
  rw [List.nil_append] at hclose
  rw [split_of_close hdrop hclose, htake]

/-- Passages and the text after them are found again, if that text holds no literal. -/
theorem split_flatMap (hps : ∀ p ∈ ps, p.Sound) (htail : split tail = ([], tail)) :
    split (ps.flatMap text ++ tail) = (ps, tail) := by
  induction ps with
  | nil => exact htail
  | cons p ps ih =>
    have hrest := ih fun x hx => hps x (List.mem_cons_of_mem p hx)
    rw [List.flatMap_cons, List.append_assoc, split_append (hps p List.mem_cons_self), hrest]

theorem sound_of_mem_split (h : p ∈ (split t).1) : p.Sound := by
  fun_induction split t with
  | case1 => cases h
  | case2 => cases h
  | case3 t q r hq contents rest hc _ others ih =>
    rcases List.mem_cons.1 h with rfl | h
    · refine ⟨?_, ?_, Quoted.close_contents hc⟩
      · intro c hc
        simpa using List.all_eq_true.1 List.all_takeWhile c hc
      · have := List.head?_dropWhile_not (!isQuote ·) t
        rw [hq] at this
        simpa using this
    · exact ih h

theorem split_tail (t : Text) : split (split t).2 = ([], (split t).2) := by
  fun_induction split t with
  | case1 t hq =>
    rw [split]
    split
    · rfl
    · rename_i heq
      cases hq.symm.trans heq
  | case2 t q r hq hc =>
    rw [split]
    split
    · rfl
    · rename_i heq
      cases hq.symm.trans heq
      split
      · rfl
      · rename_i heq
        cases hc.symm.trans heq
  | case3 t q r hq contents rest hc _ others ih => exact ih

end Passage

end TypedMirror
