import TypedMirror.Proofs.Contents

/-!
# Other words outside the literals

Where a word stands outside the literals of a query, another word may be put in its place.  The
deflated query is then the one it was, with the other word, and its literals are the same.

* `Quoted.close_replace`, `Passage.split_replace` — a quote that is never closed stays so;
* `Deflated.segmentsFrom_replace` — another word among the segments of a deflated query;
* `Deflated.Deflates.ofQuery_eq` — segments that are those of a deflated query.
-/

namespace TypedMirror

/-- A word that is neither empty nor breaks a text apart. -/
structure Text.IsWord (w : Text) : Prop where
  ne_nil : w ≠ []
  isWordChar : ∀ c ∈ w, Text.isWordChar c = true

namespace Text

variable {w : Text} {c : Char}

theorem ne_of_isWordChar {d : Char} (hc : isWordChar c = true) (hd : isWordChar d = false) :
    c ≠ d := by
  rintro rfl
  rw [hc] at hd
  cases hd

theorem isQuote_of_isWordChar (hc : isWordChar c = true) : Passage.isQuote c = false := by
  have h₁ : c ≠ '\'' := ne_of_isWordChar hc (by decide)
  have h₂ : c ≠ '"' := ne_of_isWordChar hc (by decide)
  simp [Passage.isQuote, h₁, h₂]

end Text

/-! ## Quotes that are never closed -/

namespace Quoted

variable {quote : Char} {x y v w : Text}

theorem close_append_left (hw : ∀ c ∈ w, c ≠ '\\' ∧ c ≠ quote) (y : Text) :
    close quote (w ++ y) = (close quote y).map fun p => (w ++ p.1, p.2) := by
  induction w with
  | nil => simp
  | cons c w ih =>
    have hc := hw c List.mem_cons_self
    rw [List.cons_append, close_cons hc.1, if_neg hc.2,
      ih fun d hd => hw d (List.mem_cons_of_mem c hd), Option.map_map]
    rfl

theorem close_cover (c : Char) (r : Text) :
    close quote ('\\' :: c :: r) = (close quote r).map fun p => ('\\' :: c :: p.1, p.2) := rfl

/-- No quote is closed by other words than the one that stood there.  A backslash may cover the first
character of either. -/
theorem close_replace (hv : ∀ c ∈ v, c ≠ '\\' ∧ c ≠ quote) (hw : ∀ c ∈ w, c ≠ '\\' ∧ c ≠ quote)
    (hne : v ≠ []) (hne' : w ≠ []) (h : close quote (x ++ (v ++ y)) = none) :
    close quote (x ++ (w ++ y)) = none := by
  fun_induction close quote x with
  | case1 =>
    rw [List.nil_append, close_append_left hv, Option.map_eq_none_iff] at h
    rw [List.nil_append, close_append_left hw, h]
    rfl
  | case2 =>
    obtain ⟨a, v, rfl⟩ := List.exists_cons_of_ne_nil hne
    obtain ⟨b, w, rfl⟩ := List.exists_cons_of_ne_nil hne'
    have h' : close quote ('\\' :: a :: (v ++ y)) = none := h
    rw [close_cover, Option.map_eq_none_iff,
      close_append_left fun c hc => hv c (List.mem_cons_of_mem a hc), Option.map_eq_none_iff] at h'
    show close quote ('\\' :: b :: (w ++ y)) = none
    rw [close_cover, close_append_left fun c hc => hw c (List.mem_cons_of_mem b hc), h']
    rfl
  | case3 c r ih =>
    have h' : close quote ('\\' :: c :: (r ++ (v ++ y))) = none := h
    rw [close_cover, Option.map_eq_none_iff] at h'
    show close quote ('\\' :: c :: (r ++ (w ++ y))) = none
    rw [close_cover, ih h']
    rfl
  | case4 r hlast hmore =>
    rw [List.cons_append, close_cons (ne_cover hlast hmore), if_pos rfl] at h
    cases h
  | case5 c r hlast hmore hc ih =>
    rw [List.cons_append, close_cons (ne_cover hlast hmore), if_neg hc,
      Option.map_eq_none_iff] at h
    rw [List.cons_append, close_cons (ne_cover hlast hmore), if_neg hc, ih h]
    rfl

end Quoted

namespace Passage

variable {t x y v w : Text} {p : Passage}

/-- A text holds no literal if its first quote is never closed. -/
theorem split_eq_nil_iff : split t = ([], t) ↔
    ∀ q r, t.dropWhile (!isQuote ·) = q :: r → Quoted.close q r = none := by
  constructor
  · intro h q r hq
    cases hc : Quoted.close q r with
    | none => rfl
    | some found =>
      rw [split_of_close hq hc] at h
      cases h
  · intro h
    rw [split]
    split
    · rfl
    · rename_i q r hq
      split
      · rfl
      · rename_i hc
        cases (h q r hq).symm.trans hc

theorem split_replace (hv : v.IsWord) (hw : w.IsWord)
    (h : split (x ++ (v ++ y)) = ([], x ++ (v ++ y))) :
    split (x ++ (w ++ y)) = ([], x ++ (w ++ y)) := by
  have hskip : ∀ {u : Text}, u.IsWord → (u ++ y).dropWhile (!isQuote ·) =
      y.dropWhile (!isQuote ·) := fun hu =>
    List.dropWhile_append_of_pos fun c hc => by
      rw [Text.isQuote_of_isWordChar (hu.isWordChar c hc)]
      rfl
  rw [split_eq_nil_iff] at h ⊢
  intro q r hq
  rw [List.dropWhile_append] at hq h
  rw [hskip hv] at h
  rw [hskip hw] at hq
  cases hx : x.dropWhile (!isQuote ·) with
  | nil =>
    rw [hx] at hq h
    exact h q r hq
  | cons q' x' =>
    rw [hx] at hq h
    obtain ⟨rfl, rfl⟩ := List.cons.inj (α := Char) hq
    have hquote : isQuote q' = true := by
      have := List.head?_dropWhile_not (!isQuote ·) x
      rw [hx] at this
      simpa using this
    have hplain : ∀ {u : Text}, u.IsWord → ∀ c ∈ u, c ≠ '\\' ∧ c ≠ q' := by
      intro u hu c hc
      refine ⟨Text.ne_of_isWordChar (hu.isWordChar c hc) (by decide), ?_⟩
      rintro rfl
      rw [Text.isQuote_of_isWordChar (hu.isWordChar c hc)] at hquote
      cases hquote
    exact Quoted.close_replace (hplain hv) (hplain hw) hv.ne_nil hw.ne_nil (h q' _ rfl)

theorem Sound.before_replace (h : p.Sound) (hx : p.before = x ++ (v ++ y)) (hw : w.IsWord) :
    ({ p with before := x ++ (w ++ y) } : Passage).Sound := by
  refine ⟨?_, h.quote, h.contents⟩
  intro c hc
  rcases List.mem_append.1 hc with hc | hc
  · exact h.before c (by rw [hx]; simp [hc])
  rcases List.mem_append.1 hc with hc | hc
  · exact Text.isQuote_of_isWordChar (hw.isWordChar c hc)
  · exact h.before c (by rw [hx]; simp [hc])

end Passage

/-! ## Segments -/

namespace Template

variable {t w x y : Text} {us vs : List Segment} {c : Char}

theorem escapeSegments_append (hc : c ≠ '[') (t y : Text) :
    escapeSegments (t ++ c :: y) = escapeSegments t ++ .char c :: escapeSegments y := by
  have hone : ∀ {d : Char} {r : Text}, (d = '[' → r.head? ≠ some '[') →
      escapeSegments (d :: r) = .char d :: escapeSegments r := by
    intro d r hd
    rw [escapeSegments]
    rintro r' rfl rfl
    exact hd rfl rfl
  fun_induction escapeSegments t with
  | case1 r ih => exact congrArg _ ih
  | case2 d r h ih =>
    rw [List.cons_append, hone, ih]
    · rfl
    · rintro rfl
      cases r with
      | nil => simpa using hc
      | cons e r =>
        intro he
        cases he
        exact h r rfl rfl
  | case3 => exact hone fun h => absurd h hc

theorem escapeSegments_word (hw : w.IsWord) (x y : Text) : escapeSegments (x ++ (w ++ y)) =
    escapeSegments x ++ (w.map .char ++ escapeSegments y) := by
  obtain ⟨c, w, rfl⟩ := List.exists_cons_of_ne_nil hw.ne_nil
  have hne : ∀ d ∈ c :: w, d ≠ '[' := fun d hd =>
    Text.ne_of_isWordChar (hw.isWordChar d hd) (by decide)
  have hrest : ∀ {u : Text}, (∀ d ∈ u, d ≠ '[') →
      escapeSegments (u ++ y) = u.map .char ++ escapeSegments y := by
    intro u hu
    induction u with
    | nil => rfl
    | cons d u ih =>
      have := escapeSegments_append (hu d List.mem_cons_self) [] (u ++ y)
      rw [ih fun e he => hu e (List.mem_cons_of_mem d he)] at this
      exact this
  rw [List.cons_append, escapeSegments_append (hne c List.mem_cons_self),
    hrest fun d hd => hne d (List.mem_cons_of_mem c hd)]
  rfl

theorem exists_of_escapeSegments (h : escapeSegments t = us ++ .char c :: vs) :
    ∃ x y, t = x ++ c :: y ∧ us = escapeSegments x ∧ vs = escapeSegments y := by
  fun_induction escapeSegments t generalizing us with
  | case1 r ih =>
    cases us with
    | nil => cases h
    | cons s us =>
      obtain ⟨rfl, hrest⟩ := List.cons.inj h
      obtain ⟨x, y, rfl, rfl, rfl⟩ := ih hrest
      exact ⟨'[' :: '[' :: x, y, rfl, rfl, rfl⟩
  | case2 d r hd ih =>
    cases us with
    | nil =>
      obtain ⟨hcd, rfl⟩ := List.cons.inj h
      cases hcd
      exact ⟨[], r, rfl, rfl, rfl⟩
    | cons s us =>
      obtain ⟨rfl, hrest⟩ := List.cons.inj h
      obtain ⟨x, y, rfl, rfl, rfl⟩ := ih hrest
      refine ⟨d :: x, y, rfl, ?_, rfl⟩
      rw [escapeSegments]
      rintro x' rfl rfl
      exact hd (x' ++ c :: y) rfl rfl
  | case3 => simp at h

theorem escapeSegments_eq_nil (h : escapeSegments t = []) : t = [] := by
  fun_cases escapeSegments t with
  | case1 r => cases h
  | case2 c r hc =>
    rw [escapeSegments] at h
    · cases h
    · exact hc
  | case3 => rfl

theorem exists_word_of_escapeSegments (hw : w ≠ [])
    (h : escapeSegments t = us ++ (w.map .char ++ vs)) :
    ∃ x y, t = x ++ (w ++ y) ∧ us = escapeSegments x ∧ vs = escapeSegments y := by
  have hrest : ∀ {u t : Text}, escapeSegments t = u.map .char ++ vs →
      ∃ y, t = u ++ y ∧ vs = escapeSegments y := by
    intro u t h
    induction u generalizing t with
    | nil => exact ⟨t, rfl, h.symm⟩
    | cons d u ih =>
      obtain ⟨x, y, rfl, hx, hy⟩ :=
        exists_of_escapeSegments (show escapeSegments t = [] ++ .char d :: (u.map .char ++ vs) from h)
      obtain ⟨z, rfl, hz⟩ := ih hy.symm
      rw [escapeSegments_eq_nil hx.symm]
      exact ⟨z, rfl, hz⟩
  obtain ⟨c, w, rfl⟩ := List.exists_cons_of_ne_nil hw
  obtain ⟨x, y, rfl, hx, hy⟩ := exists_of_escapeSegments h
  obtain ⟨z, rfl, hz⟩ := hrest hy.symm
  exact ⟨x, z, rfl, hx, hz⟩

end Template

namespace Deflated

open Template

variable {id : Nat} {ps : List Passage} {p : Passage} {tail v w : Text} {us vs : List Segment}

/-- A stretch stands before or behind what it does not hold. -/
theorem cases_of_append {α : Type} {as bs us vs ws : List α} {a : α} (ha : a ∉ ws)
    (h : as ++ a :: bs = us ++ (ws ++ vs)) :
    (∃ xs, as = us ++ (ws ++ xs) ∧ vs = xs ++ a :: bs) ∨
      ∃ xs, us = as ++ a :: xs ∧ bs = xs ++ (ws ++ vs) := by
  rcases List.append_eq_append_iff.1 h with ⟨xs, rfl, hxs⟩ | ⟨xs, rfl, hxs⟩
  · cases xs with
    | nil =>
      rcases ws with _ | ⟨b, ws⟩
      · exact .inl ⟨[], by simp, by simpa using hxs.symm⟩
      · rw [List.nil_append] at hxs
        exact absurd (by rw [(List.cons.inj hxs).1]; exact List.mem_cons_self) ha
    | cons x xs =>
      obtain ⟨rfl, rfl⟩ := List.cons.inj hxs
      exact .inr ⟨xs, rfl, rfl⟩
  · rcases List.append_eq_append_iff.1 hxs with ⟨ys, rfl, hys⟩ | ⟨ys, rfl, hys⟩
    · exact .inl ⟨ys, by simp, hys⟩
    · cases ys with
      | nil => exact .inl ⟨[], by simp, by simpa using hys.symm⟩
      | cons y ys =>
        obtain ⟨rfl, -⟩ := List.cons.inj hys
        exact absurd (by simp) ha

theorem exists_of_cons {α : Type} {bs us vs ws : List α} {a : α} (ha : a ∉ ws) (hws : ws ≠ [])
    (h : a :: bs = us ++ (ws ++ vs)) : ∃ xs, us = a :: xs ∧ bs = xs ++ (ws ++ vs) := by
  cases us with
  | nil =>
    obtain ⟨b, ws, rfl⟩ := List.exists_cons_of_ne_nil hws
    obtain ⟨rfl, -⟩ := List.cons.inj h
    exact absurd List.mem_cons_self ha
  | cons u us =>
    obtain ⟨rfl, rfl⟩ := List.cons.inj h
    exact ⟨us, rfl, rfl⟩

/-- A word among the segments of a deflated query stands in the text between two literals, so
another can be put in its place. -/
theorem segmentsFrom_replace (hv : v.IsWord) (hw : w.IsWord) (hps : ∀ p ∈ ps, p.Sound)
    (htail : Passage.split tail = ([], tail))
    (h : segmentsFrom id ps tail = us ++ (v.map .char ++ vs)) :
    ∃ qs last, segmentsFrom id qs last = us ++ (w.map .char ++ vs) ∧ (∀ q ∈ qs, q.Sound) ∧
      Passage.split last = ([], last) ∧ qs.map (·.contents) = ps.map (·.contents) := by
  induction ps generalizing id us vs with
  | nil =>
    obtain ⟨x, y, rfl, rfl, rfl⟩ := exists_word_of_escapeSegments hv.ne_nil h
    exact ⟨[], x ++ (w ++ y), escapeSegments_word hw x y, by simp,
      Passage.split_replace hv hw htail, rfl⟩
  | cons p ps ih =>
    have hp := hps p List.mem_cons_self
    have hps' : ∀ q ∈ ps, q.Sound := fun q hq => hps q (List.mem_cons_of_mem p hq)
    have hquote : .char p.quote ∉ v.map Segment.char := by
      intro hmem
      obtain ⟨c, hc, heq⟩ := List.mem_map.1 hmem
      cases heq
      have := Text.isQuote_of_isWordChar (hv.isWordChar _ hc)
      rw [hp.quote] at this
      cases this
    have hmarker : .marker (marker id) ∉ v.map Segment.char := by simp
    have hword : v.map Segment.char ≠ [] := by simp [hv.ne_nil]
    rw [segmentsFrom] at h
    rcases cases_of_append hquote h with ⟨xs, hbefore, rfl⟩ | ⟨us₁, rfl, h₁⟩
    · obtain ⟨x, y, hxy, rfl, rfl⟩ := exists_word_of_escapeSegments hv.ne_nil hbefore
      refine ⟨{ p with before := x ++ (w ++ y) } :: ps, tail, ?_, ?_, htail, rfl⟩
      · rw [segmentsFrom, escapeSegments_word hw]
        simp
      · exact List.forall_mem_cons.2 ⟨hp.before_replace hxy hw, hps'⟩
    · -- the word stands behind the literal
      obtain ⟨us₂, rfl, h₂⟩ := exists_of_cons hmarker hword h₁
      obtain ⟨us₃, rfl, h₃⟩ := exists_of_cons hquote hword h₂
      obtain ⟨qs, last, hqs, hsound, hlast, hcontents⟩ := ih hps' h₃
      refine ⟨p :: qs, last, ?_, List.forall_mem_cons.2 ⟨hp, hsound⟩, hlast, ?_⟩
      · rw [segmentsFrom, hqs]
        simp
      · rw [List.map_cons, List.map_cons, hcontents]

/-- The segments are those of a query with these literals. -/
def Deflates (ss : List Segment) (literals : List Text) : Prop :=
  ∃ ps tail, ss = segmentsFrom 1 ps tail ∧ (∀ p ∈ ps, p.Sound) ∧
    Passage.split tail = ([], tail) ∧ literals = ps.map (·.contents)

variable {ss : List Segment} {literals : List Text}

theorem deflates_segmentsOf (query : Text) :
    Deflates (segmentsOf query) (ofQuery query).literals :=
  ⟨_, _, rfl, fun _ hp => Passage.sound_of_mem_split hp, Passage.split_tail query, rfl⟩

theorem Deflates.replace (h : Deflates (us ++ (v.map .char ++ vs)) literals)
    (hvw : w = v ∨ v.IsWord ∧ w.IsWord) : Deflates (us ++ (w.map .char ++ vs)) literals := by
  rcases hvw with rfl | ⟨hv, hw⟩
  · exact h
  · obtain ⟨ps, tail, hss, hps, htail, rfl⟩ := h
    obtain ⟨qs, last, hqs, hsound, hlast, hcontents⟩ :=
      segmentsFrom_replace hv hw hps htail hss.symm
    exact ⟨qs, last, hqs.symm, hsound, hlast, hcontents.symm⟩

/-- The words behind the gaps can all be replaced. -/
theorem Deflates.replace_all {α : Type} {xs : List α} {gap : α → List Segment} {f g : α → Text}
    (hfg : ∀ x ∈ xs, g x = f x ∨ (f x).IsWord ∧ (g x).IsWord)
    (h : Deflates (us ++ (xs.flatMap (fun x => gap x ++ (f x).map .char) ++ vs)) literals) :
    Deflates (us ++ (xs.flatMap (fun x => gap x ++ (g x).map .char) ++ vs)) literals := by
  induction xs generalizing us with
  | nil => exact h
  | cons x xs ih =>
    have hx : Deflates ((us ++ gap x) ++ ((f x).map .char ++
        (xs.flatMap (fun x => gap x ++ (f x).map .char) ++ vs))) literals := by
      simpa using h
    have hrest : Deflates ((us ++ (gap x ++ (g x).map .char)) ++
        (xs.flatMap (fun x => gap x ++ (f x).map .char) ++ vs)) literals := by
      simpa using hx.replace (hfg x List.mem_cons_self)
    simpa using ih (fun y hy => hfg y (List.mem_cons_of_mem x hy)) hrest

/-- A text whose segments are those of a deflated query, with what the markers stand for, is a query
that is deflated to the same text. -/
theorem Deflates.ofQuery_eq (h : Deflates ss literals) {resolve : Marker → Option Text}
    (hescape : resolve ⟨.escape, []⟩ = some Marker.opening)
    (hliteral : ∀ id, resolve (marker id) = literal? ⟨[], literals⟩ id) :
    ofQuery (ss.flatMap (Segment.expand resolve)) = ⟨ss.flatMap Segment.text, literals⟩ := by
  obtain ⟨ps, tail, rfl, hps, htail, rfl⟩ := h
  have hexpand : (segmentsFrom 1 ps tail).flatMap (Segment.expand resolve) =
      ps.flatMap Passage.text ++ tail := by
    refine expand_segmentsFrom hescape hliteral ?_
    intro i p hp
    rw [Nat.add_comm]
    show (ps.map (·.contents))[i]? = some p.contents
    rw [List.getElem?_map, hp]
    rfl
  rw [hexpand, ofQuery_of_split (Passage.split_flatMap hps htail), text_segmentsFrom]

end Deflated

end TypedMirror
