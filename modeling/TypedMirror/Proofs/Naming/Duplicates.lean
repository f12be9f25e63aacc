import TypedMirror.Proofs.Committed
import TypedMirror.Proofs.Naming

/-!
# Duplicate registrations

A type and its arguments can be written in many ways.  A registration is refused as a duplicate if
what it is read as has been registered before, in whatever way that was written.

* `Numeral.read_eq_some` — which texts are read as a number;
* `ValueType.read_eq_ok_iff`, `ValueType.readAs_iff` — which written types and arguments stand for
  which;
* `Setup.duplicate_iff` — which registrations are duplicates;
* `Mirror.names_injective` — what names tell, and so what a duplicate is.
-/

namespace TypedMirror

/-! ## Numerals -/

namespace Numeral

/-- A digit is the numeral of its value. -/
theorem write_digit {c : Char} (hc : c.isDigit) :
    c.toNat - '0'.toNat < 10 ∧ write (c.toNat - '0'.toNat) = [c] := by
  obtain ⟨hlow, hhigh⟩ := Char.isDigit_iff_toNat.1 hc
  have h0 : '0'.toNat = 48 := rfl
  have h9 : '9'.toNat = 57 := rfl
  have hvalue : c.toNat - '0'.toNat < 10 := by omega
  have hchar : (c.toNat - '0'.toNat).digitChar = c := by
    rw [← Char.toNat_inj, Nat.toNat_digitChar_of_lt_ten hvalue]
    omega
  exact ⟨hvalue, by rw [write, Nat.toDigits_of_lt_base hvalue, hchar]⟩

/-- A run of digits is the numeral of its number behind zeros. -/
theorem exists_zeros {ds : Text} (hne : ds ≠ []) (hds : ∀ c ∈ ds, c.isDigit) :
    ∃ k, ds = List.replicate k '0' ++ write (Nat.ofDigitChars 10 ds 0) := by
  induction ds using List.reverseRecOn with
  | nil => exact absurd rfl hne
  | append_singleton ds d ih =>
    obtain ⟨hlt, hd⟩ := write_digit (hds d (by simp))
    rw [Nat.ofDigitChars_append, Nat.ofDigitChars_cons, Nat.ofDigitChars_nil]
    by_cases hnil : ds = []
    · subst hnil
      exact ⟨0, by simpa using hd.symm⟩
    · obtain ⟨k, hk⟩ := ih hnil fun c hc => hds c (by simp [hc])
      rcases Nat.eq_zero_or_pos (Nat.ofDigitChars 10 ds 0) with hzero | hpos
      · -- Nothing but zeros so far, and the last of them is the numeral.
        refine ⟨k + 1, ?_⟩
        have hlast : write 0 = ['0'] := rfl
        rw [hzero, hlast] at hk
        rw [hzero, Nat.mul_zero, Nat.zero_add, hd, List.replicate_succ', ← hk]
      · refine ⟨k, ?_⟩
        rw [write, ← Nat.toDigits_append_toDigits (by omega) hpos hlt, ← List.append_assoc]
        exact congrArg₂ (· ++ ·) hk hd.symm

theorem isDigit_of_mem_zeros {k n : Nat} {c : Char} (h : c ∈ List.replicate k '0' ++ write n) :
    c.isDigit := by
  rcases List.mem_append.1 h with h | h
  · rw [List.eq_of_mem_replicate h]
    rfl
  · exact isDigit_of_mem_write h

theorem readDigits_eq_some {ds : Text} {n : Nat} :
    readDigits ds = some n ↔ ∃ k, ds = List.replicate k '0' ++ write n := by
  unfold readDigits
  constructor
  · intro h
    split at h
    · rename_i hds
      rw [Bool.and_eq_true, Bool.not_eq_true', List.all_eq_true] at hds
      obtain rfl := Option.some.inj h
      exact exists_zeros (by simpa using hds.1) hds.2
    · cases h
  · rintro ⟨k, rfl⟩
    have hall : (List.replicate k '0' ++ write n).all Char.isDigit :=
      List.all_eq_true.2 fun _ hc => isDigit_of_mem_zeros hc
    rw [if_pos (by simp [hall, write_ne_nil]), Nat.ofDigitChars_append,
      Nat.ofDigitChars_replicate_zero, Nat.mul_zero]
    exact congrArg some Nat.ofDigitChars_ten_toDigits

/-- A numeral is read behind one `+` and any zeros. -/
theorem read_eq_some {t : Text} {n : Nat} : read t = some n ↔
    ∃ sign k, t = sign ++ (List.replicate k '0' ++ write n) ∧ (sign = [] ∨ sign = ['+']) := by
  constructor
  · intro h
    unfold read at h
    split at h
    · obtain ⟨k, rfl⟩ := readDigits_eq_some.1 h
      exact ⟨['+'], k, rfl, .inr rfl⟩
    · obtain ⟨k, rfl⟩ := readDigits_eq_some.1 h
      exact ⟨[], k, rfl, .inl rfl⟩
  · rintro ⟨sign, k, rfl, rfl | rfl⟩
    · unfold read
      split
      · rename_i ds hplus
        have hdigit : ('+' : Char).isDigit := isDigit_of_mem_zeros (k := k) (n := n) (by
          rw [← List.nil_append (List.replicate k '0' ++ write n), hplus]
          exact List.mem_cons_self)
        exact absurd hdigit (by decide)
      · exact readDigits_eq_some.2 ⟨k, rfl⟩
    · exact readDigits_eq_some.2 ⟨k, rfl⟩

end Numeral

/-! ## Written types and arguments -/

namespace ValueType

variable {written : Text} {t : ValueType} {args : List Text} {ns : List Nat}

theorem sameIgnoringCase_keyword {w : Text} :
    Text.sameIgnoringCase w t.keyword ↔ Text.upper w = t.keyword := by
  have hkeyword : Text.upper t.keyword = t.keyword := by cases t <;> decide
  rw [Text.sameIgnoringCase, beq_iff_eq]
  constructor
  · intro h
    rw [← Text.upper_lower, h, Text.upper_lower, hkeyword]
  · intro h
    rw [← Text.lower_upper, h]

/-- A type is read from its keyword in any case, with blanks around it. -/
theorem read_eq_ok_iff :
    read written = .ok t ↔ Text.sameIgnoringCase (Text.trim written) t.keyword := by
  rw [sameIgnoringCase_keyword]
  unfold read
  constructor
  · intro h
    split at h
    · rename_i u hu
      cases h
      have hkeyword := List.find?_some hu
      exact (eq_of_beq hkeyword).symm
    · cases h
  · intro h
    rw [h]
    cases t <;> rfl

/-- A written argument stands for a number: blanks, a sign and zeros in front do not count. -/
def Spells (a : Text) (n : Nat) : Prop :=
  ∃ sign k, Text.trim a = sign ++ (List.replicate k '0' ++ Numeral.write n) ∧
    (sign = [] ∨ sign = ['+']) ∧ n ≤ maxArg

theorem readUpTo_eq_some {a : Text} {n : Nat} :
    Numeral.readUpTo maxArg (Text.trim a) = some n ↔ Spells a n := by
  rw [Numeral.readUpTo, Option.filter_eq_some_iff, Numeral.read_eq_some, decide_eq_true_eq]
  constructor
  · rintro ⟨⟨sign, k, ht, hsign⟩, hn⟩
    exact ⟨sign, k, ht, hsign, hn⟩
  · rintro ⟨sign, k, ht, hsign, hn⟩
    exact ⟨⟨sign, k, ht, hsign⟩, hn⟩

/-- Written arguments stand for numbers, in order; those that stand for none are dropped. -/
inductive ReadAs : List Text → List Nat → Prop
  | nil : ReadAs [] []
  | read {a : Text} {n : Nat} {args : List Text} {ns : List Nat} (ha : Spells a n)
    (h : ReadAs args ns) : ReadAs (a :: args) (n :: ns)
  | dropped {a : Text} {args : List Text} {ns : List Nat} (ha : ∀ n, ¬ Spells a n)
    (h : ReadAs args ns) : ReadAs (a :: args) ns

theorem readArgs_cons_of_spells {a : Text} {n : Nat} (h : Spells a n) (args : List Text) :
    readArgs (a :: args) = n :: readArgs args := by
  simp [readArgs, readUpTo_eq_some.2 h]

theorem readArgs_cons_of_not_spells {a : Text} (h : ∀ n, ¬ Spells a n) (args : List Text) :
    readArgs (a :: args) = readArgs args := by
  have hnone : Numeral.readUpTo maxArg (Text.trim a) = none :=
    Option.eq_none_iff_forall_ne_some.2 fun n hn => h n (readUpTo_eq_some.1 hn)
  simp [readArgs, hnone]

theorem readAs_readArgs (args : List Text) : ReadAs args (readArgs args) := by
  induction args with
  | nil => exact .nil
  | cons a args ih =>
    by_cases ha : ∃ n, Spells a n
    · obtain ⟨n, ha⟩ := ha
      rw [readArgs_cons_of_spells ha]
      exact .read ha ih
    · rw [readArgs_cons_of_not_spells (not_exists.1 ha)]
      exact .dropped (not_exists.1 ha) ih

theorem readAs_iff : ReadAs args ns ↔ readArgs args = ns := by
  constructor
  · intro h
    induction h with
    | nil => rfl
    | read ha _ ih => rw [readArgs_cons_of_spells ha, ih]
    | dropped ha _ ih => rw [readArgs_cons_of_not_spells ha, ih]
  · rintro rfl
    exact readAs_readArgs args

end ValueType

/-! ## Duplicates -/

namespace Mirror

variable {m : Mirror} {source : Text}

/-- A mirror that is read has the source, the type and the arguments that are written. -/
theorem read_parts {c : Catalog} {type : Text} {written : List Text}
    (h : read c source type written = .ok m) : m.Defined ∧ m.source = source ∧
      ValueType.read type = .ok m.valueType ∧ ValueType.readArgs written = m.typeArgs := by
  obtain ⟨t, ht, hdefine⟩ := read_eq_ok h
  refine ⟨.define hdefine, (define_eq_ok hdefine).1, ?_⟩
  unfold define at hdefine
  split at hdefine
  · cases hdefine
  · obtain ⟨_, -, hdefine⟩ := bind_eq_ok.1 hdefine
    obtain ⟨_, -, hdefine⟩ := bind_eq_ok.1 hdefine
    cases hdefine
    exact ⟨ht, rfl⟩

end Mirror

section Duplicates

variable {c : Catalog} {steps : List Session.Step} {s : Setup} {source type : Text}
  {args : List Text} {m x : Mirror}

/-- A mirror is of the source, the type and the arguments that are written. -/
def Mirror.IsOf (x : Mirror) (source type : Text) (args : List Text) : Prop :=
  x.source = source ∧ Text.sameIgnoringCase (Text.trim type) x.valueType.keyword ∧
    ValueType.ReadAs args x.typeArgs

theorem Mirror.isOf_iff (hread : Mirror.read c source type args = .ok m) (hx : x.Defined) :
    x.IsOf source type args ↔ x.id = m.id := by
  obtain ⟨hm, hsource, htype, hargs⟩ := Mirror.read_parts hread
  rw [hx.id_eq_iff hm, IsOf, ← ValueType.read_eq_ok_iff, ValueType.readAs_iff, htype, hargs,
    hsource, Except.ok.injEq, eq_comm (a := m.valueType), eq_comm (a := m.typeArgs)]

/-- As long as the window is open, a registration is a duplicate of a mirror with its name. -/
theorem Setup.duplicate_iff (hs : s.index.Agrees s.mirrors) (hw : s.window = .isOpen)
    (hread : Mirror.read s.catalog source type args = .ok m) :
    (∃ id, s.register source type args = .error (.duplicateMirror id)) ↔
      m.id ∈ s.mirrors.map (·.id) := by
  have hregister : s.register source type args = (s.add m).map fun s' => (s', m.id) := by
    unfold Setup.register
    rw [ensureOpen_of_isOpen hw, hread]
    show (s.add m >>= fun s' => pure (s', m.id)) = _
    cases s.add m <;> rfl
  rw [hregister, add, ensureOpen_of_isOpen hw]
  cases hi : s.index.lookup m.id with
  | none => simp [bind, Except.bind, hs.lookup_eq_none.1 hi, pure, Except.pure, Except.map]
  | some i => simp [bind, Except.bind, hs.mem_ids_of_lookup hi, Except.map]

end Duplicates

namespace Mirror

/-- The name of a mirror is its source, `_mm_` and its type with the arguments, and mirrors have one
name just if they have one source, one type and the same arguments, whatever catalogs they are
defined over and whatever their sources are called.  So, in whatever setup a host has reached with
mirrors that have been defined, as long as the window is open, a registration of a mirror that can
be defined is refused as a duplicate just if a mirror of that source, type and arguments is there,
without regard to how the type and the arguments are written. -/
theorem names_injective :
    (∀ m : Mirror, m.Defined →
      m.id = m.source ++ "_mm_".toList ++ typeSuffix m.valueType m.typeArgs) ∧
    (∀ m m' : Mirror, m.Defined → m'.Defined → (m.id = m'.id ↔
      m.source = m'.source ∧ m.valueType = m'.valueType ∧ m.typeArgs = m'.typeArgs)) ∧
    ∀ (c : Catalog) (steps : List Session.Step) (s : Setup), (∀ step ∈ steps, step.Sound) →
      (Session.setup (.start c)).after steps = .setup s → s.window = .isOpen →
      ∀ (source type : Text) (args : List Text) (m : Mirror),
        read s.catalog source type args = .ok m →
        ((∃ id, s.register source type args = .error (.duplicateMirror id)) ↔
          ∃ x ∈ s.mirrors, x.IsOf source type args) := by
  refine ⟨fun m h => h.id_eq, fun m m' h h' => h.id_eq_iff h', ?_⟩
  intro c steps s hsteps hafter hw source type args m hread
  have henrolled := Session.enrolled_after c hsteps
  have hagrees := Session.agrees_after (Session.agrees_start c) steps
  rw [hafter] at henrolled hagrees
  rw [Setup.duplicate_iff hagrees hw hread, List.mem_map]
  refine exists_congr fun x => and_congr_right fun hx => ?_
  exact (isOf_iff hread (henrolled.defined x hx)).symm

/-- A mirror of small texts, asked for a second time with other blanks, case, sign and zeros. -/
theorem names_injective_sample :
    let s : Setup := { Sample.setup with mirrors := [{ Sample.colours with whitelist := [] }] }
    (Session.setup (.start .standard)).after
      [.register "wp_postmeta".toList "varchar".toList ["16".toList]] = .setup s ∧
      ∃ id, s.register "wp_postmeta".toList " VarChar".toList
        ["x".toList, " +016".toList] = .error (.duplicateMirror id) := by
  intro s
  have hafter : (Session.setup (.start .standard)).after
      [.register "wp_postmeta".toList "varchar".toList ["16".toList]] = .setup s := by
    decide +kernel
  have hread : read s.catalog "wp_postmeta".toList " VarChar".toList
      ["x".toList, " +016".toList] = .ok { Sample.colours with whitelist := [] } := by
    decide +kernel
  have hargs : ValueType.readArgs ["x".toList, " +016".toList] = [16] := by decide +kernel
  obtain ⟨-, -, hduplicate⟩ := names_injective
  have hiff := hduplicate _ _ _ (by simp [Session.Step.Sound]) hafter rfl _ _ _ _ hread
  refine ⟨hafter, hiff.2 ⟨_, List.mem_singleton_self _, rfl, by decide +kernel, ?_⟩⟩
  exact ValueType.readAs_iff.2 hargs

end Mirror

end TypedMirror
