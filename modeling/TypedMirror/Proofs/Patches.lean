import Mathlib.Data.List.Basic
import TypedMirror.Proofs.Brackets
import TypedMirror.Proofs.Deflation
import TypedMirror.Query.Parse

/-!
# Markers in place of text

A template is a deflated query in which markers have been put in place of stretches of text.  Where
each stretch is made of whole segments, the template is read stretch by stretch.

* `exists_patches` — edits at fitting places are of whole segments;
* `splice_edits` — the template that the edits make;
* `segments_patched` — its segments.
-/

namespace TypedMirror

/-! ## Places between segments -/

/-- The characters that the markers of a deflated query are written with. -/
def Marker.isOwnChar (c : Char) : Bool := c == '[' || c == ']' || c == ':' || Text.isWordChar c

theorem Marker.isOwnChar_of_mem_write {m : Marker} (h : m.IsStored) {c : Char} (hc : c ∈ m.write) :
    isOwnChar c = true := by
  rcases h with rfl | ⟨id, rfl⟩
  · have hall : (Marker.mk .escape []).write.all isOwnChar = true := by decide
    exact List.all_eq_true.1 hall c hc
  · have hframe : (opening ++ Kind.literal.word ++ ':' :: closing).all isOwnChar = true := by decide
    have hmem : c ∈ opening ++ Kind.literal.word ++ ':' :: closing ∨ c ∈ Numeral.write id := by
      simp only [write, Deflated.marker, List.mem_append, List.mem_cons] at hc ⊢
      rcases hc with (hc | hc | hc) | hc
      · exact .inl (.inl hc)
      · exact .inl (.inr (.inl hc))
      · exact .inr hc
      · exact .inl (.inr (.inr hc))
    rcases hmem with hmem | hmem
    · exact List.all_eq_true.1 hframe c hmem
    · have hdigit := Numeral.isDigit_of_mem_write hmem
      simp [isOwnChar, Text.isWordChar, Char.isAlphanum, hdigit]

section Places

variable {ss : List Segment} {a b x : Text} {c : Char}

/-- No marker is cut where one of the characters on the two sides belongs to none. -/
theorem exists_split (hstored : ∀ m, .marker m ∈ ss → m.IsStored)
    (hss : ss.flatMap Segment.text = a ++ c :: b)
    (h : Marker.isOwnChar c = false ∨ ∀ d ∈ b.head?, Marker.isOwnChar d = false) :
    ∃ us vs, ss = us ++ vs ∧ us.flatMap Segment.text = a ++ [c] ∧ vs.flatMap Segment.text = b := by
  induction ss generalizing a with
  | nil => exact absurd hss (by simp)
  | cons s ss ih =>
    have hstored' : ∀ m, .marker m ∈ ss → m.IsStored := fun m hm =>
      hstored m (List.mem_cons_of_mem s hm)
    rw [List.flatMap_cons] at hss
    rcases List.append_eq_append_iff.1 hss with ⟨x, rfl, hrest⟩ | ⟨x, hx, hrest⟩
    · obtain ⟨us, vs, rfl, hus, hvs⟩ := ih hstored' hrest
      exact ⟨s :: us, vs, rfl, by rw [List.flatMap_cons, hus, List.append_assoc], hvs⟩
    · rcases x with _ | ⟨d, _ | ⟨e, x⟩⟩
      · rw [List.append_nil] at hx
        obtain ⟨us, vs, rfl, hus, hvs⟩ := ih (a := []) hstored' hrest.symm
        refine ⟨s :: us, vs, rfl, ?_, hvs⟩
        rw [List.flatMap_cons, hus, hx, List.nil_append]
      · cases hrest
        exact ⟨[s], ss, rfl, by rw [List.flatMap_singleton, hx], rfl⟩
      · -- both characters stand in one segment, so in a marker
        cases hrest
        cases s with
        | char d =>
          have := congrArg List.length hx
          simp [Segment.text] at this
          omega
        | marker m =>
          have hm := hstored m List.mem_cons_self
          have hc : c ∈ m.write := by
            show c ∈ Segment.text (.marker m)
            rw [hx]
            simp
          have he : e ∈ m.write := by
            show e ∈ Segment.text (.marker m)
            rw [hx]
            simp
          rcases h with h | h
          · rw [Marker.isOwnChar_of_mem_write hm hc] at h
            cases h
          · have := h e rfl
            rw [Marker.isOwnChar_of_mem_write hm he] at this
            cases this

end Places

/-! ## Edits at fitting places -/

namespace Query

/-- Edits that can be made one after the other in a text at position `start`.  Each is of the text
that it names, stands behind some character, and cuts no marker. -/
inductive Fitted : Nat → Text → List Edit → Prop
  | nil (start : Nat) (text : Text) : Fitted start text []
  | cons {start : Nat} {gap x rest : Text} {c : Char} {e : Edit} {es : List Edit}
    (hstart : e.start = start + (gap.length + 1)) (hstop : e.stop = e.start + x.length)
    (hname : e.marker.name = x)
    (hkind : e.marker.kind = .column ∨ Text.has x Marker.closing = false) (hc : c ≠ '[')
    (hbegin : Marker.isOwnChar c = false ∨
      ∀ d ∈ (x ++ rest).head?, Marker.isOwnChar d = false) (hend : x.Sealed)
    (h : Fitted e.stop rest es) : Fitted start (gap ++ c :: (x ++ rest)) (e :: es)

theorem Fitted.append {start : Nat} {text : Text} {es : List Edit} (a : Text)
    (h : Fitted (start + a.length) text es) : Fitted start (a ++ text) es := by
  cases h with
  | nil => exact .nil _ _
  | @cons _ gap x rest c e es hstart hstop hname hkind hc hbegin hend h =>
    rw [← List.append_assoc]
    refine .cons ?_ hstop hname hkind hc hbegin hend h
    rw [hstart, List.length_append]
    omega

end Query

/-- A stretch of a deflated query that a marker is put in place of, and what stands before it. -/
structure Patch where
  gap : List Segment
  covered : List Segment
  marker : Marker
deriving DecidableEq, Repr

namespace Patch

open Query (Edit Fitted)

structure Sound (p : Patch) : Prop where
  name : p.covered.flatMap Segment.text = p.marker.name
  kind : p.marker.kind = .column ∨ Text.has p.marker.name Marker.closing = false
  gap : p.gap.getLast? ≠ some (.char '[')
  bound : p.marker.name.Sealed

/-- The segments without the markers. -/
def source (ps : List Patch) (last : List Segment) : List Segment :=
  ps.flatMap (fun p => p.gap ++ p.covered) ++ last

/-- The edits that put the markers in. -/
def edits (start : Nat) : List Patch → List Edit
  | [] => []
  | p :: ps =>
    let begin := start + (p.gap.flatMap Segment.text).length
    ⟨begin, begin + p.marker.name.length, p.marker⟩ :: edits (begin + p.marker.name.length) ps

theorem source_cons (p : Patch) (ps : List Patch) (last : List Segment) :
    source (p :: ps) last = p.gap ++ (p.covered ++ source ps last) := by
  simp [source]

variable {ps : List Patch} {start : Nat} {last : List Segment}

theorem exists_patches {ss : List Segment} {text : Text} {es : List Edit}
    (h : Fitted start text es) (hstored : ∀ m, .marker m ∈ ss → m.IsStored)
    (hss : ss.flatMap Segment.text = text) :
    ∃ ps last, ss = source ps last ∧ es = edits start ps ∧ ∀ p ∈ ps, p.Sound := by
  induction h generalizing ss with
  | nil => exact ⟨[], ss, rfl, rfl, by simp⟩
  | @cons start gap x rest c e es hstart hstop hname hkind hc hbegin hend h ih =>
    obtain ⟨us, vs, rfl, hus, hvs⟩ := exists_split hstored hss hbegin
    have hstored' : ∀ m, .marker m ∈ vs → m.IsStored := fun m hm =>
      hstored m (List.mem_append_right us hm)
    obtain ⟨ws, zs, rfl, hws, hzs⟩ : ∃ ws zs, vs = ws ++ zs ∧
        ws.flatMap Segment.text = x ∧ zs.flatMap Segment.text = rest := by
      rcases hend with hend | hend
      · obtain ⟨zs, rfl, hzs⟩ := Template.eq_append_of_noBracket (fun d hd => (hend d hd).1) hvs
        exact ⟨x.map Segment.char, zs, rfl, Template.text_map_char x, hzs⟩
      · obtain ⟨y, rfl⟩ := List.getLast?_eq_some_iff.1 hend
        rw [List.append_assoc] at hvs
        obtain ⟨ws, zs, rfl, hws, hzs⟩ := exists_split hstored' hvs (.inl (by decide))
        exact ⟨ws, zs, rfl, hws, hzs⟩
    obtain ⟨ps, last, rfl, rfl, hsound⟩ := ih
      (fun m hm => hstored' m (List.mem_append_right ws hm)) hzs
    refine ⟨⟨us, ws, e.marker⟩ :: ps, last, (source_cons ⟨us, ws, e.marker⟩ ps last).symm, ?_, ?_⟩
    · obtain ⟨begin, stop, marker⟩ := e
      dsimp only at hstart hstop hname
      subst hname
      have hbegin : start + (us.flatMap Segment.text).length = begin := by
        rw [hus, hstart, List.length_append, List.length_singleton]
      simp only [edits, hbegin, ← hstop]
    · intro p hp
      rcases List.mem_cons.1 hp with rfl | hp
      · refine ⟨hws.trans hname.symm, hname ▸ hkind, ?_, hname ▸ hend⟩
        intro hlast
        obtain ⟨us, rfl⟩ := List.getLast?_eq_some_iff.1 hlast
        have := congrArg List.getLast? hus
        simp [Segment.text] at this
        exact hc this.symm
      · exact hsound p hp

/-- The template that the edits make of the segments. -/
theorem splice_edits (hsound : ∀ p ∈ ps, p.Sound) :
    Query.splice start ((source ps last).flatMap Segment.text) (edits start ps) =
      ps.flatMap (fun p => p.gap.flatMap Segment.text ++ p.marker.write)
        ++ last.flatMap Segment.text := by
  induction ps generalizing start with
  | nil => rfl
  | cons p ps ih =>
    have hp := hsound p List.mem_cons_self
    have htext : (source (p :: ps) last).flatMap Segment.text = p.gap.flatMap Segment.text ++
        (p.marker.name ++ (source ps last).flatMap Segment.text) := by
      rw [source_cons, List.flatMap_append, List.flatMap_append, hp.name]
    rw [htext, edits, Query.splice]
    dsimp only
    have htake : (p.gap.flatMap Segment.text ++
        (p.marker.name ++ (source ps last).flatMap Segment.text)).take
          (start + (p.gap.flatMap Segment.text).length - start) = p.gap.flatMap Segment.text :=
      List.take_left' (by omega)
    have hdrop : (p.gap.flatMap Segment.text ++
        (p.marker.name ++ (source ps last).flatMap Segment.text)).drop
          (start + (p.gap.flatMap Segment.text).length + p.marker.name.length - start) =
        (source ps last).flatMap Segment.text := by
      rw [← List.append_assoc]
      exact List.drop_left' (by rw [List.length_append]; omega)
    rw [htake, hdrop, ih fun q hq => hsound q (List.mem_cons_of_mem p hq)]
    simp

/-! ## Reading the template -/

open Template

/-- What is read of the marker that was put in. -/
def reading (p : Patch) : List Segment := segments p.marker.write

section Reading

variable {p : Patch}

theorem segments_write_of_noClosing (hp : p.Sound) (hread : Readable p.covered)
    (h : Text.has p.marker.name Marker.closing = false) (t : Text) :
    segments (p.marker.write ++ t) = [.marker p.marker] ++ segments t :=
  segments_of_read? (Marker.read?_write (plain_of_noClosing hread hp.name hp.bound h) t)

theorem reading_eq {us : List Segment}
    (h : ∀ t, segments (p.marker.write ++ t) = us ++ segments t) : p.reading = us := by
  have := h []
  rwa [List.append_nil, segments_nil, List.append_nil] at this

theorem reading_of_noClosing (hp : p.Sound) (hread : Readable p.covered)
    (h : Text.has p.marker.name Marker.closing = false) : p.reading = [.marker p.marker] :=
  reading_eq (segments_write_of_noClosing hp hread h)

theorem eq_column (hkind : p.marker.kind = .column) : p.marker = column p.marker.name := by
  obtain ⟨gap, covered, kind, name⟩ := p
  dsimp only at hkind
  subst hkind
  rfl

/-- What is read of a column with closing brackets, and what it expands to. -/
theorem reading_of_closing (hp : p.Sound) (hread : Readable p.covered)
    (h : Text.has p.marker.name Marker.closing = true) :
    (∀ t, segments (p.marker.write ++ t) = p.reading ++ segments t) ∧
      ∀ resolve : Marker → Option Text, (∀ name, resolve (column name) = some name) →
        (p.covered.flatMap (Segment.expand resolve)).length ≤
          (p.reading.flatMap (Segment.expand resolve)).length ∧
        p.reading.flatMap (Segment.expand resolve) ≠
          p.covered.flatMap (Segment.expand resolve) := by
  have hmarker : p.marker = column p.marker.name := by
    rcases hp.kind with hkind | hnone
    · exact eq_column hkind
    · rw [hnone] at h
      cases h
  obtain ⟨us, hus, hexpand⟩ := exists_reading hread hp.name hp.bound h
  rw [← hmarker] at hus
  rw [reading_eq hus]
  exact ⟨hus, hexpand⟩

/-- The text behind a marker is read apart from it. -/
theorem segments_write (hp : p.Sound) (hread : Readable p.covered) (t : Text) :
    segments (p.marker.write ++ t) = p.reading ++ segments t := by
  cases h : Text.has p.marker.name Marker.closing with
  | false => rw [segments_write_of_noClosing hp hread h, reading_of_noClosing hp hread h]
  | true => exact (reading_of_closing hp hread h).1 t

variable {resolve : Marker → Option Text} (hresolve : ∀ name, resolve (column name) = some name)

include hresolve

theorem length_le_reading (hp : p.Sound) (hread : Readable p.covered)
    (hkind : p.marker.kind = .column) :
    (p.covered.flatMap (Segment.expand resolve)).length ≤
        (p.reading.flatMap (Segment.expand resolve)).length ∧
      (p.reading.flatMap (Segment.expand resolve) = p.covered.flatMap (Segment.expand resolve) ↔
        Text.has p.marker.name Marker.closing = false) := by
  cases h : Text.has p.marker.name Marker.closing with
  | false =>
    have hcovered := eq_map_char hp.name h
    have heq : p.reading.flatMap (Segment.expand resolve) =
        p.covered.flatMap (Segment.expand resolve) := by
      rw [reading_of_noClosing hp hread h, hcovered, expand_map_char, List.flatMap_singleton,
        Segment.expand, eq_column hkind, hresolve]
      rfl
    rw [heq]
    simp
  | true =>
    obtain ⟨hlength, hne⟩ := (reading_of_closing hp hread h).2 resolve hresolve
    exact ⟨hlength, by simpa using hne⟩

end Reading

theorem readable_of_mem (h : Readable (source ps last)) {p : Patch} (hp : p ∈ ps) :
    Readable p.gap ∧ Readable p.covered := by
  obtain ⟨as, bs, rfl⟩ := List.append_of_mem hp
  rw [source, List.flatMap_append, List.flatMap_cons, List.append_assoc, List.append_assoc] at h
  exact ⟨h.right.left.left, h.right.left.right⟩

/-- The template is read stretch by stretch. -/
theorem segments_patched (hread : Readable (source ps last)) (hsound : ∀ p ∈ ps, p.Sound) :
    segments (ps.flatMap (fun p => p.gap.flatMap Segment.text ++ p.marker.write)
      ++ last.flatMap Segment.text) = ps.flatMap (fun p => p.gap ++ p.reading) ++ last := by
  induction ps with
  | nil => exact segments_flatMap hread
  | cons p ps ih =>
    have hp := hsound p List.mem_cons_self
    obtain ⟨hgap, hcovered⟩ := readable_of_mem hread List.mem_cons_self
    rw [source_cons] at hread
    have hps := ih hread.right.right fun q hq => hsound q (List.mem_cons_of_mem p hq)
    rw [List.flatMap_cons, List.append_assoc, List.append_assoc,
      segments_append hgap fun h => absurd h hp.gap, segments_write hp hcovered, hps]
    simp

/-- Where no part can get shorter, the whole stays the same only if each part does. -/
theorem flatMap_eq_iff {α β : Type} {xs : List α} {f g : α → List β}
    (h : ∀ x ∈ xs, (g x).length ≤ (f x).length) :
    xs.flatMap f = xs.flatMap g ↔ ∀ x ∈ xs, f x = g x := by
  have hlength : ∀ {ys : List α}, (∀ x ∈ ys, (g x).length ≤ (f x).length) →
      (ys.flatMap g).length ≤ (ys.flatMap f).length := by
    intro ys hys
    induction ys with
    | nil => exact Nat.le_refl _
    | cons y ys ih =>
      have hy := hys y List.mem_cons_self
      have hrest := ih fun x hx => hys x (List.mem_cons_of_mem y hx)
      rw [List.flatMap_cons, List.flatMap_cons, List.length_append, List.length_append]
      omega
  constructor
  · intro heq
    induction xs with
    | nil => simp
    | cons x xs ih =>
      have hx := h x List.mem_cons_self
      have hxs : ∀ y ∈ xs, (g y).length ≤ (f y).length := fun y hy =>
        h y (List.mem_cons_of_mem x hy)
      rw [List.flatMap_cons, List.flatMap_cons] at heq
      have htotal := congrArg List.length heq
      have hrest := hlength hxs
      rw [List.length_append, List.length_append] at htotal
      obtain ⟨hhead, htail⟩ := List.append_inj heq (by omega)
      intro y hy
      rcases List.mem_cons.1 hy with rfl | hy
      · exact hhead
      · exact ih hxs htail y hy
  · exact List.flatMap_congr

end Patch

end TypedMirror
