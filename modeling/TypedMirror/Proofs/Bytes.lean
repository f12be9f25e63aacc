import TypedMirror.Proofs.Renaming.Deflated
import TypedMirror.Text.Bytes

/-!
# Searches in bytes

What looks for ASCII characters only finds the same in the bytes of a text as in the text.

* `bytes_eq_cons` — an ASCII byte is a character of the text;
* `exists_char_at` — the character a byte is of;
* `takeWhile_bytes`, `after?_bytes`, `cut_bytes` — the searches in a text;
* `close_bytes` — the end of a quoted text.
-/

namespace TypedMirror

namespace Text

variable {c : Char} {t x : Text}

theorem of_mem_bytesOf (h : 0x80 ≤ c.toNat) {d : Char} (hd : d ∈ bytesOf c) : 0x80 ≤ d.toNat := by
  obtain ⟨e, w, hc, he, hw, -⟩ := bytesOf_wide h
  rw [hc] at hd
  rcases List.mem_cons.1 hd with rfl | hd
  · exact he
  · exact hw d hd

theorem exists_bytesOf (c : Char) : ∃ d w, bytesOf c = d :: w := by
  rcases Nat.lt_or_ge c.toNat 0x80 with hc | hc
  · exact ⟨c, [], bytesOf_ascii hc⟩
  · obtain ⟨d, w, hbytes, -⟩ := bytesOf_wide hc
    exact ⟨d, w, hbytes⟩

/-- Each byte is one of a character. -/
theorem exists_char_at {i : Nat} {d : Char} (h : (bytes t)[i]? = some d) : ∃ a c b,
    t = a ++ c :: b ∧ (bytes a).length ≤ i ∧ i < (bytes (a ++ [c])).length ∧ d ∈ bytesOf c := by
  induction t generalizing i with
  | nil => cases h
  | cons c t ih =>
    rw [bytes_cons] at h
    rcases Nat.lt_or_ge i (bytesOf c).length with hi | hi
    · rw [List.getElem?_append_left hi] at h
      refine ⟨[], c, t, rfl, Nat.zero_le _, ?_, List.mem_of_getElem? h⟩
      simpa [bytes_cons] using hi
    · rw [List.getElem?_append_right hi] at h
      obtain ⟨a, e, b, rfl, hle, hlt, hd⟩ := ih h
      refine ⟨c :: a, e, b, rfl, ?_, ?_, hd⟩
      · rw [bytes_cons, List.length_append]
        omega
      · rw [List.cons_append, bytes_cons, List.length_append]
        omega

theorem ne_of_ascii {d : Char} (hc : c.toNat < 0x80) (hd : 0x80 ≤ d.toNat) : d ≠ c := by
  rintro rfl
  exact Nat.not_lt_of_le hd hc

/-- An ASCII byte is the character at its place. -/
theorem bytes_eq_cons (hc : c.toNat < 0x80) : bytes t = c :: x ↔ ∃ y, t = c :: y ∧ x = bytes y := by
  constructor
  · intro h
    cases t with
    | nil => cases h
    | cons d y =>
      rcases Nat.lt_or_ge d.toNat 0x80 with hd | hd
      · rw [bytes_cons_ascii hd] at h
        obtain ⟨rfl, rfl⟩ := List.cons.inj h
        exact ⟨y, rfl, rfl⟩
      · obtain ⟨e, w, hbytes, he, -⟩ := bytesOf_wide hd
        rw [bytes_cons, hbytes] at h
        exact absurd (List.cons.inj h).1 (ne_of_ascii hc he)
  · rintro ⟨y, rfl, rfl⟩
    exact bytes_cons_ascii hc y

/-- No class of ASCII characters has another character in it. -/
theorem classes_of_wide (h : 0x80 ≤ c.toNat) : isWordChar c = false ∧ c.isDigit = false ∧
    isAsciiBlank c = false ∧ isAsciiControl c = false := by
  have hle : ∀ d : Char, d.toNat < 0x80 → ¬c.val ≤ d.val := fun d hd hle =>
    Nat.not_lt_of_le h (Nat.lt_of_le_of_lt (UInt32.le_iff_toNat_le.1 hle) hd)
  have hne : ∀ d : Char, d.toNat < 0x80 → (c == d) = false := fun d hd =>
    beq_eq_false_iff_ne.2 (ne_of_ascii hd h)
  have hupper : c.isUpper = false := decide_eq_false fun h => hle 'Z' (by decide) h.2
  have hlower : c.isLower = false :=
    Bool.and_eq_false_iff.2 (.inr (decide_eq_false (hle 'z' (by decide))))
  have hdigit : c.isDigit = false :=
    Bool.and_eq_false_iff.2 (.inr (decide_eq_false (hle '9' (by decide))))
  have halphanum : c.isAlphanum = false :=
    Bool.or_eq_false_iff.2 ⟨Bool.or_eq_false_iff.2 ⟨hupper, hlower⟩, hdigit⟩
  refine ⟨?_, hdigit, by simp [isAsciiBlank, hne], ?_⟩
  · simp [isWordChar, halphanum, hne]
  · have hcontrol : ¬c.toNat < 0x20 ∧ c.toNat ≠ 0x7f := by omega
    simp [isAsciiControl, hcontrol]

/-- The property does not tell apart characters that are not ASCII. -/
def Coarse (p : Char → Bool) : Prop := ∀ c d : Char, 0x80 ≤ c.toNat → 0x80 ≤ d.toNat → p c = p d

theorem coarse_of_wide {p : Char → Bool} {b : Bool} (hp : ∀ c : Char, 0x80 ≤ c.toNat → p c = b) :
    Coarse p :=
  fun c d hc hd => (hp c hc).trans (hp d hd).symm

theorem takeWhile_bytes {p : Char → Bool} (hp : Coarse p) (t : Text) :
    (bytes t).takeWhile p = bytes (t.takeWhile p) := by
  induction t with
  | nil => rfl
  | cons c t ih =>
    rw [List.takeWhile_cons]
    rcases Nat.lt_or_ge c.toNat 0x80 with hc | hc
    · rw [bytes_cons_ascii hc, List.takeWhile_cons, ih]
      split
      · exact (bytes_cons_ascii hc _).symm
      · rfl
    · have hall : ∀ d ∈ bytesOf c, p d = p c := fun d hd => hp d c (of_mem_bytesOf hc hd) hc
      split
      · rename_i hpc
        rw [bytes_cons, bytes_cons, ← ih]
        exact List.takeWhile_append_of_pos fun d hd => (hall d hd).trans hpc
      · rename_i hpc
        obtain ⟨d, w, hbytes, -⟩ := bytesOf_wide hc
        have hd : p d = false := by
          rw [hall d (by rw [hbytes]; exact List.mem_cons_self)]
          exact Bool.eq_false_iff.2 hpc
        rw [bytes_cons, hbytes, List.cons_append, List.takeWhile_cons, hd]
        rfl

/-- Only ASCII characters have the property. -/
def AsciiOnly (p : Char → Bool) : Prop := ∀ c : Char, 0x80 ≤ c.toNat → p c = false

section AsciiOnly

variable {p : Char → Bool} (hp : AsciiOnly p)

include hp

theorem AsciiOnly.lt (h : p c = true) : c.toNat < 0x80 := by
  by_contra hwide
  rw [hp c (Nat.le_of_not_lt hwide)] at h
  cases h

theorem AsciiOnly.first_byte {d : Char} {w : Text} (h : bytesOf c = d :: w) : p d = p c := by
  rcases Nat.lt_or_ge c.toNat 0x80 with hc | hc
  · rw [bytesOf_ascii hc] at h
    rw [(List.cons.inj h).1]
  · have hd : d ∈ bytesOf c := by
      rw [h]
      exact List.mem_cons_self
    rw [hp d (of_mem_bytesOf hc hd), hp c hc]

theorem AsciiOnly.takeWhile (t : Text) : (bytes t).takeWhile p = t.takeWhile p := by
  rw [takeWhile_bytes (coarse_of_wide hp), bytes_of_ascii]
  exact fun c hc => hp.lt (List.all_eq_true.1 List.all_takeWhile c hc)

end AsciiOnly

theorem asciiOnly_isWordChar : AsciiOnly isWordChar := fun _ hc => (classes_of_wide hc).1

theorem asciiOnly_isDigit : AsciiOnly Char.isDigit := fun _ hc => (classes_of_wide hc).2.1

theorem asciiOnly_isAsciiBlank : AsciiOnly isAsciiBlank := fun _ hc => (classes_of_wide hc).2.2.1

theorem after?_bytes {lead : Text} (hlead : ∀ c ∈ lead, c.toNat < 0x80) (t : Text) :
    after? lead (bytes t) = (after? lead t).map bytes := by
  induction lead generalizing t with
  | nil => rfl
  | cons a lead ih =>
    have ha := hlead a List.mem_cons_self
    cases t with
    | nil => rfl
    | cons c t =>
      rcases Nat.lt_or_ge c.toNat 0x80 with hc | hc
      · rw [bytes_cons_ascii hc, after?, after?]
        split
        · exact ih (fun d hd => hlead d (List.mem_cons_of_mem a hd)) t
        · rfl
      · obtain ⟨d, w, hbytes, hd, -⟩ := bytesOf_wide hc
        rw [bytes_cons, hbytes, List.cons_append, after?_cons_of_ne (ne_of_ascii ha hd).symm,
          after?_cons_of_ne (ne_of_ascii ha hc).symm]
        rfl

theorem cut_bytes {sep : Text} (hne : sep ≠ []) (hsep : ∀ c ∈ sep, c.toNat < 0x80) (t : Text) :
    cut sep (bytes t) = (cut sep t).map fun p => (bytes p.1, bytes p.2) := by
  obtain ⟨a, sep, rfl⟩ := List.exists_cons_of_ne_nil hne
  have ha := hsep a List.mem_cons_self
  induction t with
  | nil => rfl
  | cons c t ih =>
    rcases Nat.lt_or_ge c.toNat 0x80 with hc | hc
    · have hafter := after?_bytes hsep (c :: t)
      rw [bytes_cons_ascii hc] at hafter ⊢
      cases h : after? (a :: sep) (c :: t) with
      | some rest =>
        rw [h] at hafter
        rw [cut_of_after? h, cut_of_after? hafter]
        rfl
      | none =>
        rw [h] at hafter
        rw [cut_cons h, cut_cons hafter, ih, Option.map_map, Option.map_map]
        refine Option.map_congr fun p _ => ?_
        simp only [Function.comp_apply, bytes_cons_ascii hc]
    · have hbytes : a ∉ bytesOf c := fun hmem => ne_of_ascii ha (of_mem_bytesOf hc hmem) rfl
      have hnone : after? (a :: sep) (c :: t) = none := after?_cons_of_ne (ne_of_ascii ha hc).symm
      rw [bytes_cons, cut_append hbytes, cut_cons hnone, ih, Option.map_map, Option.map_map]
      refine Option.map_congr fun p _ => ?_
      simp only [Function.comp_apply, bytes_cons]

end Text

namespace Quoted

open Text (bytes bytesOf bytes_cons bytes_cons_ascii)

/-- A quote is closed at the same place, though a backslash covers but the first byte of a
character. -/
theorem close_bytes {quote : Char} (hquote : quote.toNat < 0x80) (t : Text) :
    close quote (bytes t) = (close quote t).map fun p => (bytes p.1, bytes p.2) := by
  have hcover : '\\'.toNat < 0x80 := by decide
  have hwide : ∀ {d : Char}, 0x80 ≤ d.toNat → d ≠ '\\' ∧ d ≠ quote := fun hd =>
    ⟨Text.ne_of_ascii hcover hd, Text.ne_of_ascii hquote hd⟩
  have hplain : ∀ {c : Char} {r : Text}, c ≠ '\\' → c ≠ quote →
      (close quote (bytes r) = (close quote r).map fun p => (bytes p.1, bytes p.2)) →
      close quote (bytes (c :: r)) =
        ((close quote r).map fun p => (c :: p.1, p.2)).map fun p => (bytes p.1, bytes p.2) := by
    intro c r hc hne ih
    have hw : ∀ d ∈ bytesOf c, d ≠ '\\' ∧ d ≠ quote := by
      rcases Nat.lt_or_ge c.toNat 0x80 with hascii | hascii
      · rw [Text.bytesOf_ascii hascii]
        simpa using ⟨hc, hne⟩
      · exact fun d hd => hwide (Text.of_mem_bytesOf hascii hd)
    rw [bytes_cons, close_append_left hw, ih, Option.map_map, Option.map_map]
    refine Option.map_congr fun p _ => ?_
    simp only [Function.comp_apply, bytes_cons]
  fun_induction close quote t with
  | case1 => rfl
  | case2 => rw [bytes_cons_ascii hcover]; rfl
  | case3 c r ih =>
    obtain ⟨d, w, hbytes, hw⟩ : ∃ d w, bytesOf c = d :: w ∧ ∀ e ∈ w, e ≠ '\\' ∧ e ≠ quote := by
      rcases Nat.lt_or_ge c.toNat 0x80 with hascii | hascii
      · exact ⟨c, [], Text.bytesOf_ascii hascii, by simp⟩
      · obtain ⟨d, w, hbytes, -, hw, -⟩ := Text.bytesOf_wide hascii
        exact ⟨d, w, hbytes, fun e he => hwide (hw e he)⟩
    rw [bytes_cons_ascii hcover, bytes_cons, hbytes, List.cons_append, close_cover,
      close_append_left hw, ih, Option.map_map, Option.map_map, Option.map_map]
    refine Option.map_congr fun p _ => ?_
    simp only [Function.comp_apply, bytes_cons_ascii hcover, bytes_cons, hbytes, List.cons_append]
  | case4 r hlast hmore =>
    rw [bytes_cons_ascii hquote, close_cons (ne_cover hlast hmore), if_pos rfl]
    rfl
  | case5 c r hlast hmore hne ih => exact hplain (ne_cover hlast hmore) hne ih

end Quoted

end TypedMirror
