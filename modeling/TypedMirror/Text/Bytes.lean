import TypedMirror.Text

/-!
# The bytes of a text

The bytes of a text in UTF-8, each as the character of its number: what scans characters then scans
bytes too.  An ASCII character is its own single byte, and no byte of another character is ASCII.
-/

namespace TypedMirror.Text

/-- The bytes of a character. -/
def bytesOf (c : Char) : Text := (String.utf8EncodeChar c).map fun b => Char.ofNat b.toNat

/-- The bytes of a text. -/
def bytes (t : Text) : Text := t.flatMap bytesOf

/-- The number of bytes of the character whose first byte this is. -/
def width (lead : Char) : Nat :=
  if lead.toNat < 0x80 then 1
  else if lead.toNat < 0xe0 then 2
  else if lead.toNat < 0xf0 then 3
  else 4

theorem bytesOf_ascii {c : Char} (h : c.toNat < 0x80) : bytesOf c = [c] := by
  have hv : c.val.toNat ≤ 127 := Nat.le_of_lt_succ h
  have hencode : String.utf8EncodeChar c = [UInt8.ofNat c.toNat] := if_pos hv
  have hmod : c.toNat % 2 ^ 8 = c.toNat := Nat.mod_eq_of_lt (Nat.lt_trans h (by decide))
  rw [bytesOf, hencode, List.map_singleton, UInt8.toNat_ofNat', hmod, Char.ofNat_toNat]

/-- The number of a byte, as a character, is the byte. -/
theorem toNat_byte (n : Nat) : (Char.ofNat (UInt8.ofNat n).toNat).toNat = n % 256 := by
  have hvalid : (n % 256).isValidChar := .inl (Nat.lt_trans (Nat.mod_lt n (by decide)) (by decide))
  rw [UInt8.toNat_ofNat', Char.ofNat, dif_pos hvalid]
  rfl

theorem bytesOf_wide {c : Char} (h : 0x80 ≤ c.toNat) : ∃ d w, bytesOf c = d :: w ∧
    0x80 ≤ d.toNat ∧ (∀ e ∈ w, 0x80 ≤ e.toNat) ∧ width d = w.length + 1 := by
  have hv : ¬c.val.toNat ≤ 127 := Nat.not_le_of_lt h
  have hmore : ∀ m, 0x80 ≤ (Char.ofNat (UInt8.ofNat (m % 64 + 128)).toNat).toNat := by
    intro m
    rw [toNat_byte]
    omega
  unfold bytesOf String.utf8EncodeChar width
  dsimp only
  rw [if_neg hv]
  generalize c.val.toNat = v at hv
  split
  · refine ⟨_, _, rfl, ?_, by simpa using hmore _, ?_⟩
    · rw [toNat_byte]
      omega
    · simp only [toNat_byte, List.map_cons, List.map_nil, List.length_cons, List.length_nil]
      rw [if_neg (by omega), if_pos (by omega)]
  split
  · refine ⟨_, _, rfl, ?_, by simpa using ⟨hmore _, hmore _⟩, ?_⟩
    · rw [toNat_byte]
      omega
    · simp only [toNat_byte, List.map_cons, List.map_nil, List.length_cons, List.length_nil]
      rw [if_neg (by omega), if_neg (by omega), if_pos (by omega)]
  · refine ⟨_, _, rfl, ?_, by simpa using ⟨hmore _, hmore _, hmore _⟩, ?_⟩
    · rw [toNat_byte]
      omega
    · simp only [toNat_byte, List.map_cons, List.map_nil, List.length_cons, List.length_nil]
      rw [if_neg (by omega), if_neg (by omega), if_neg (by omega)]

section Bytes

variable {c : Char} {t : Text}

@[simp] theorem bytes_nil : bytes [] = [] := rfl

theorem bytes_cons (c : Char) (t : Text) : bytes (c :: t) = bytesOf c ++ bytes t :=
  List.flatMap_cons ..

@[simp] theorem bytes_append (t u : Text) : bytes (t ++ u) = bytes t ++ bytes u :=
  List.flatMap_append ..

theorem bytes_cons_ascii (h : c.toNat < 0x80) (t : Text) : bytes (c :: t) = c :: bytes t := by
  rw [bytes_cons, bytesOf_ascii h, List.singleton_append]

theorem length_bytes (t : Text) : (bytes t).length = utf8Size t := by
  have hfold : ∀ n, t.foldl (fun n c => n + c.utf8Size) n = n + (bytes t).length := by
    induction t with
    | nil => simp
    | cons c t ih =>
      intro n
      have hc : (bytesOf c).length = c.utf8Size := by
        rw [bytesOf, List.length_map, String.length_utf8EncodeChar]
      rw [List.foldl_cons, ih, bytes_cons, List.length_append, hc, Nat.add_assoc]
  rw [utf8Size, hfold, Nat.zero_add]

theorem ascii_of_all (h : (t.all fun c => c.toNat < 0x80) = true) : ∀ c ∈ t, c.toNat < 0x80 :=
  fun c hc => of_decide_eq_true (List.all_eq_true.1 h c hc)

theorem bytes_of_ascii (h : ∀ c ∈ t, c.toNat < 0x80) : bytes t = t := by
  induction t with
  | nil => rfl
  | cons c t ih =>
    rw [bytes_cons_ascii (h c List.mem_cons_self), ih fun d hd => h d (List.mem_cons_of_mem c hd)]

end Bytes

end TypedMirror.Text
