/-!
# Text

The text of queries, names and statements is a list of characters, so that every scan below is a
recursion on the text itself.  Positions are numbers of characters; `Text.utf8Size` gives the bytes
a stretch of text takes when a position has to be reported in bytes.
-/

namespace TypedMirror

/-- A text, as the list of its characters. -/
abbrev Text := List Char

namespace Text

/-! ## Classes of characters -/

/-- The characters of a bare SQL word: ASCII letters and digits, `_` and `$`. -/
def isWordChar (c : Char) : Bool := c.isAlphanum || c == '_' || c == '$'

/-- ASCII white space: space, tab, line feed, form feed and carriage return. -/
def isAsciiBlank (c : Char) : Bool :=
  c == ' ' || c == '\t' || c == '\n' || c == '\x0c' || c == '\r'

/-- ASCII control characters. -/
def isAsciiControl (c : Char) : Bool := c.toNat < 0x20 || c.toNat == 0x7f

/-- The characters of the Unicode property White_Space. -/
def isBlank (c : Char) : Bool :=
  let n := c.toNat
  (0x09 ≤ n && n ≤ 0x0d) || n == 0x20 || n == 0x85 || n == 0xa0 || n == 0x1680
    || (0x2000 ≤ n && n ≤ 0x200a) || n == 0x2028 || n == 0x2029 || n == 0x202f || n == 0x205f
    || n == 0x3000

/-- The text without the blanks at its two ends. -/
def trim (t : Text) : Text := ((t.dropWhile isBlank).reverse.dropWhile isBlank).reverse

/-- Nothing but blanks. -/
def isAllBlank (t : Text) : Bool := t.all isBlank

theorem trim_eq_nil {t : Text} : trim t = [] ↔ isAllBlank t := by
  rw [trim, isAllBlank, List.reverse_eq_nil_iff]
  induction t with
  | nil => simp
  | cons c r ih =>
    rw [List.all_cons, Bool.and_eq_true, List.dropWhile_cons]
    split
    · rename_i hc
      simpa [hc] using ih
    · rename_i hc
      rw [List.reverse_cons, List.dropWhile_append]
      simp [hc]
      split <;> simp

/-! ## ASCII case -/

/-- ASCII letters made capital. -/
def upper (t : Text) : Text := t.map Char.toUpper

/-- ASCII letters made small. -/
def lower (t : Text) : Text := t.map Char.toLower

theorem toNat_toLower (c : Char) :
    c.toLower.toNat = if 65 ≤ c.toNat ∧ c.toNat ≤ 90 then c.toNat + 32 else c.toNat := by
  have hclass : c.val ≥ 'A'.val ∧ c.val ≤ 'Z'.val ↔ 65 ≤ c.toNat ∧ c.toNat ≤ 90 := Iff.rfl
  have hstep : ('a'.val - 'A'.val).toNat = 32 := rfl
  unfold Char.toLower
  simp only [hclass]
  split
  · rename_i h
    show (c.val + ('a'.val - 'A'.val)).toNat = c.val.toNat + 32
    have hhigh : c.val.toNat ≤ 90 := h.2
    rw [UInt32.toNat_add, hstep]
    omega
  · rfl

theorem toNat_toUpper (c : Char) :
    c.toUpper.toNat = if 97 ≤ c.toNat ∧ c.toNat ≤ 122 then c.toNat - 32 else c.toNat := by
  have hclass : 'a'.val ≤ c.val ∧ c.val ≤ 'z'.val ↔ 97 ≤ c.toNat ∧ c.toNat ≤ 122 := Iff.rfl
  have hstep : ('A'.val - 'a'.val).toNat = 2 ^ 32 - 32 := rfl
  unfold Char.toUpper
  simp only [hclass]
  split
  · rename_i h
    show (c.val + ('A'.val - 'a'.val)).toNat = c.val.toNat - 32
    have hlow : 97 ≤ c.val.toNat := h.1
    have hhigh : c.val.toNat ≤ 122 := h.2
    rw [UInt32.toNat_add, hstep]
    omega
  · rfl

theorem toLower_toUpper (c : Char) : c.toUpper.toLower = c.toLower := by
  rw [← Char.toNat_inj, toNat_toLower, toNat_toLower, toNat_toUpper]
  grind

theorem toUpper_toLower (c : Char) : c.toLower.toUpper = c.toUpper := by
  rw [← Char.toNat_inj, toNat_toUpper, toNat_toUpper, toNat_toLower]
  grind

@[simp] theorem lower_upper (t : Text) : lower (upper t) = lower t := by
  simp only [lower, upper, List.map_map, Function.comp_def, toLower_toUpper]

@[simp] theorem upper_lower (t : Text) : upper (lower t) = upper t := by
  simp only [lower, upper, List.map_map, Function.comp_def, toUpper_toLower]

/-- Equality up to the case of ASCII letters. -/
def sameIgnoringCase (a b : Text) : Bool := lower a == lower b

/-- Only ASCII characters. -/
def isAscii (t : Text) : Bool := t.all (·.toNat < 0x80)

/-! ## Parts of a text -/

/-- What follows `lead` at the head of the text. -/
def after? : (lead t : Text) → Option Text
  | [], t => some t
  | _ :: _, [] => none
  | a :: lead, c :: r => if a = c then after? lead r else none

theorem after?_eq_some {lead t rest : Text} : after? lead t = some rest ↔ t = lead ++ rest := by
  fun_induction after? lead t with
  | case1 => simp [eq_comm]
  | case2 => simp
  | case3 lead r c ih => simp [ih]
  | case4 a lead c r h => simp [Ne.symm h]

/-- The text before the first occurrence of `sep`, and the text after it. -/
def cut (sep : Text) (t : Text) : Option (Text × Text) :=
  match after? sep t with
  | some rest => some ([], rest)
  | none =>
    match t with
    | [] => none
    | c :: r => (cut sep r).map fun p => (c :: p.1, p.2)

theorem cut_eq_some {sep t a b : Text} (h : cut sep t = some (a, b)) : t = a ++ sep ++ b := by
  fun_induction cut sep t generalizing a with
  | case1 t rest hp =>
    cases h
    simpa using after?_eq_some.1 hp
  | case2 => simp at h
  | case3 c r _ ih =>
    obtain ⟨p, hp, he⟩ := Option.map_eq_some_iff.1 h
    cases he
    simpa using ih hp

/-- Whether `part` occurs in the text. -/
def has (t part : Text) : Bool := (cut part t).isSome

/-- The characters from position `start` up to position `stop`. -/
def slice (t : Text) (start stop : Nat) : Text := (t.drop start).take (stop - start)

/-- The parts one after the other, with `sep` between neighbours. -/
def joinWith (sep : Text) (parts : List Text) : Text := sep.intercalate parts

theorem mem_joinWith {sep : Text} {parts : List Text} {c : Char} (h : c ∈ joinWith sep parts) :
    c ∈ sep ∨ ∃ t ∈ parts, c ∈ t := by
  unfold joinWith at h
  induction parts with
  | nil => cases h
  | cons t parts ih =>
    cases parts with
    | nil =>
      rw [List.intercalate_singleton] at h
      exact .inr ⟨t, List.mem_cons_self, h⟩
    | cons u parts =>
      rw [List.intercalate_cons_cons, List.append_assoc, List.mem_append, List.mem_append] at h
      rcases h with h | h | h
      · exact .inr ⟨t, List.mem_cons_self, h⟩
      · exact .inl h
      · obtain hsep | ⟨v, hv, hc⟩ := ih h
        · exact .inl hsep
        · exact .inr ⟨v, List.mem_cons_of_mem t hv, hc⟩

/-- The number of bytes of the text in UTF-8. -/
def utf8Size (t : Text) : Nat := t.foldl (fun n c => n + c.utf8Size) 0

/-! ## Whole words -/

/-- A place where a word may begin or end: the end of the text, or a character of no word. -/
def isEdge (neighbour : Option Char) : Bool := !neighbour.any isWordChar

/-- The occurrences of `name` from left to right, none overlapping the one before it: is one of them
bounded by edges on both sides?  The first `skip` characters belong to an occurrence already seen,
and `before` is the character ahead of the text. -/
def mentionsFrom (name : Text) (skip : Nat) (before : Option Char) (t : Text) : Bool :=
  match skip, t with
  | skip + 1, c :: r => mentionsFrom name skip (some c) r
  | _ + 1, [] => false
  | 0, t =>
    match after? name t with
    | some rest =>
      (isEdge before && isEdge rest.head?) ||
        match t with
        | [] => false
        | c :: r => mentionsFrom name (name.length - 1) (some c) r
    | none =>
      match t with
      | [] => false
      | c :: r => mentionsFrom name 0 (some c) r

/-- Whether `name` stands in the text as a word of its own. -/
def mentions (t name : Text) : Bool := mentionsFrom name 0 none t

end Text

end TypedMirror
