import ApiClient.Json.Lexeme
import ApiClient.Proofs.Results
import ApiClient.Proofs.Text.Pieces

/-!
# Numbers and the texts that are kept of them

* `Exponent`, `Number`: the parts of a number as it is written, with what makes them one;
* `Number.spelled`, `Number.kept`: the text of a number, and the text that stands for it afterwards;
* `Number.kept_eq_spelled_iff`: the two are the same unless an exponent is written otherwise than
  with a small letter and a sign;
* `EndsNumber`: what can stand behind a number;
* `number_spelled`: a number is read up to its end, and its text is kept as said;
* `number_sound`: what is read as a number is one.
-/

namespace ApiClient.Json

/-- Digits, at least one. -/
def IsDigits (s : List Char) : Prop := s ≠ [] ∧ ∀ c ∈ s, c.isDigit = true

instance : DecidablePred IsDigits := fun s =>
  decidable_of_iff (s ≠ [] ∧ s.all Char.isDigit = true) (and_congr_right' List.all_eq_true)

/-- An exponent as it is written. -/
structure Exponent where
  letter : Char
  sign? : Option Char
  digits : List Char
  letter_mem : letter ∈ ['e', 'E']
  sign_mem : ∀ c ∈ sign?, c ∈ ['+', '-']
  isDigits : IsDigits digits

namespace Exponent

/-- The text of an exponent. -/
def spelled (x : Exponent) : List Char := x.letter :: (x.sign?.toList ++ x.digits)

/-- The text that is kept of an exponent. -/
def kept (x : Exponent) : List Char := 'e' :: x.sign?.getD '+' :: x.digits

theorem kept_eq_spelled_iff {x : Exponent} :
    x.kept = x.spelled ↔ x.letter = 'e' ∧ x.sign? ≠ none := by
  rw [kept, spelled, List.cons_eq_cons]
  cases hsign : x.sign? with
  | none => simp
  | some sign => simp [eq_comm]

end Exponent

/-- A number as it is written. -/
structure Number where
  negative : Bool
  integer : List Char
  fraction? : Option (List Char)
  exponent? : Option Exponent
  isDigits_integer : IsDigits integer
  /-- Nothing stands behind a zero in front. -/
  eq_zero : integer.head? = some '0' → integer = ['0']
  isDigits_fraction : ∀ digits ∈ fraction?, IsDigits digits

namespace Number

/-- A fraction with its point, if there is one. -/
def fractionText (fraction? : Option (List Char)) : List Char := fraction?.elim [] ('.' :: ·)

/-- A number with its exponent written in some way, if it has one. -/
def written (write : Exponent → List Char) (x : Number) : List Char :=
  (if x.negative then ['-'] else []) ++
    (x.integer ++ (fractionText x.fraction? ++ x.exponent?.elim [] write))

/-- The text of a number. -/
def spelled (x : Number) : List Char := x.written Exponent.spelled

/-- The text that is kept of a number. -/
def kept (x : Number) : List Char := x.written Exponent.kept

/-- The text of a number is kept if its exponent has a small letter and a sign, or it has none. -/
theorem kept_eq_spelled_iff {x : Number} :
    x.kept = x.spelled ↔ ∀ e ∈ x.exponent?, e.letter = 'e' ∧ e.sign? ≠ none := by
  simp only [kept, spelled, written, List.append_cancel_left_eq]
  cases x.exponent? with
  | none => simp
  | some e => simp [Exponent.kept_eq_spelled_iff]

theorem exists_spelled_eq (x : Number) :
    ∃ c s, x.spelled = c :: s ∧ (c = '-' ∨ c.isDigit = true) := by
  rw [spelled, written]
  cases x.negative with
  | true => exact ⟨'-', _, rfl, .inl rfl⟩
  | false =>
    obtain ⟨hne, hall⟩ := x.isDigits_integer
    obtain ⟨c, digits, hx⟩ := List.exists_cons_of_ne_nil hne
    rw [hx]
    exact ⟨c, _, rfl, .inr (hall c (by simp [hx]))⟩

end Number

/-! ## Reading -/

/-- What can stand behind a number. -/
def EndsNumber (s : List Char) : Prop :=
  ∀ c ∈ s.head?, c.isDigit = false ∧ c ∉ ['.', 'e', 'E']

variable {rest : List Char} {atEnd : Fault}

theorem exponentDigits_append {digits : List Char} (h : IsDigits digits)
    (hrest : ∀ c ∈ rest.head?, c.isDigit = false) :
    exponentDigits atEnd (digits ++ rest) = .ok (digits, rest) := by
  obtain ⟨hne, hdigits⟩ := h
  cases digits with
  | nil => exact absurd rfl hne
  | cons c digits =>
    rw [List.forall_mem_cons] at hdigits
    rw [List.cons_append, exponentDigits, if_pos hdigits.1,
      Text.takeWhile_append_of_head hdigits.2 hrest, Text.dropWhile_append_of_head hdigits.2 hrest]

theorem exponent_of_head (h : ∀ c ∈ rest.head?, c ≠ 'e' ∧ c ≠ 'E') :
    exponent atEnd rest = .ok ([], rest) := by
  cases rest with
  | nil => rfl
  | cons c rest =>
    unfold exponent
    dsimp only
    rw [if_neg (not_or.mpr (h c rfl))]

/-- The digits of an exponent stand behind its sign or, if it has none, behind its letter. -/
theorem exponent_signed {letter sign : Char} (hletter : letter ∈ ['e', 'E'])
    (hsign : sign ∈ ['+', '-']) (s : List Char) :
    exponent atEnd (letter :: sign :: s) =
      (fun p => ('e' :: sign :: p.1, p.2)) <$> exponentDigits atEnd s := by
  have hletter : letter = 'e' ∨ letter = 'E' := by simpa using hletter
  have hsign : sign = '+' ∨ sign = '-' := by simpa using hsign
  unfold exponent
  dsimp only
  rw [if_pos hletter]
  rcases hsign with rfl | rfl <;> exact (map_eq_pure_bind _ _).symm

theorem exponent_unsigned {letter digit : Char} (hletter : letter ∈ ['e', 'E'])
    (hdigit : digit.isDigit = true) (s : List Char) :
    exponent atEnd (letter :: digit :: s) =
      (fun p => ('e' :: '+' :: p.1, p.2)) <$> exponentDigits atEnd (digit :: s) := by
  have hletter : letter = 'e' ∨ letter = 'E' := by simpa using hletter
  unfold exponent
  dsimp only
  rw [if_pos hletter]
  split
  · next heq =>
    rw [(List.cons_eq_cons.mp heq).1] at hdigit
    cases hdigit
  · next heq =>
    rw [(List.cons_eq_cons.mp heq).1] at hdigit
    cases hdigit
  · exact (map_eq_pure_bind _ _).symm

theorem exponent_spelled (x : Exponent) (hrest : ∀ c ∈ rest.head?, c.isDigit = false) :
    exponent atEnd (x.spelled ++ rest) = .ok (x.kept, rest) := by
  have hdigits : exponentDigits atEnd (x.digits ++ rest) = .ok (x.digits, rest) :=
    exponentDigits_append x.isDigits hrest
  rw [Exponent.spelled, List.cons_append, Exponent.kept]
  cases hsign : x.sign? with
  | some sign =>
    rw [Option.toList_some, List.singleton_append, List.cons_append,
      exponent_signed x.letter_mem (x.sign_mem sign hsign), hdigits]
    rfl
  | none =>
    obtain ⟨hne, hall⟩ := x.isDigits
    obtain ⟨digit, digits, hx⟩ := List.exists_cons_of_ne_nil hne
    rw [hx, List.cons_append] at hdigits
    rw [Option.toList_none, List.nil_append, hx, List.cons_append,
      exponent_unsigned x.letter_mem (hall digit (by simp [hx])), hdigits]
    rfl

theorem exponent_optional (x? : Option Exponent) (h : EndsNumber rest) :
    exponent atEnd (x?.elim [] Exponent.spelled ++ rest) =
      .ok (x?.elim [] Exponent.kept, rest) := by
  cases x? with
  | none =>
    refine exponent_of_head fun c hc => ?_
    have hnot := (h c hc).2
    simp only [List.mem_cons, List.not_mem_nil, or_false, not_or] at hnot
    exact hnot.2
  | some x => exact exponent_spelled x fun c hc => (h c hc).1

theorem head_exponent (x? : Option Exponent) (h : EndsNumber rest) :
    ∀ c ∈ (x?.elim [] Exponent.spelled ++ rest).head?, c.isDigit = false ∧ c ≠ '.' := by
  intro c hc
  cases x? with
  | none =>
    obtain ⟨hdigit, hnot⟩ := h c hc
    refine ⟨hdigit, fun hpoint => ?_⟩
    rw [hpoint] at hnot
    exact hnot (by decide)
  | some x =>
    obtain rfl := Option.some.inj hc
    have hletter : x.letter = 'e' ∨ x.letter = 'E' := by simpa using x.letter_mem
    rcases hletter with hletter | hletter <;> rw [hletter] <;> decide

theorem fraction_of_head {s : List Char} (h : ∀ c ∈ s.head?, c ≠ '.') :
    fraction atEnd s = exponent atEnd s := by
  unfold fraction
  split
  · exact absurd rfl (h '.' rfl)
  · rfl

theorem fraction_point {digits s : List Char} (h : IsDigits digits)
    (hs : ∀ c ∈ s.head?, c.isDigit = false) :
    fraction atEnd ('.' :: (digits ++ s)) =
      (fun p => ('.' :: digits ++ p.1, p.2)) <$> exponent atEnd s := by
  obtain ⟨hne, hdigits⟩ := h
  rw [fraction, Text.takeWhile_append_of_head hdigits hs, Text.dropWhile_append_of_head hdigits hs]
  dsimp only
  rw [if_neg (by simpa using hne)]
  exact (map_eq_pure_bind _ _).symm

theorem fraction_optional (x : Number) (h : EndsNumber rest) :
    fraction atEnd
        (Number.fractionText x.fraction? ++ (x.exponent?.elim [] Exponent.spelled ++ rest)) =
      .ok (Number.fractionText x.fraction? ++ x.exponent?.elim [] Exponent.kept, rest) := by
  have hhead := head_exponent x.exponent? h
  cases hfraction : x.fraction? with
  | none =>
    rw [Number.fractionText, Option.elim_none, List.nil_append, List.nil_append,
      fraction_of_head fun c hc => (hhead c hc).2, exponent_optional x.exponent? h]
  | some digits =>
    rw [Number.fractionText, Option.elim_some, List.cons_append,
      fraction_point (x.isDigits_fraction digits hfraction) fun c hc => (hhead c hc).1,
      exponent_optional x.exponent? h]
    rfl

theorem head_fraction (x : Number) (h : EndsNumber rest) :
    ∀ c ∈ (Number.fractionText x.fraction? ++
      (x.exponent?.elim [] Exponent.spelled ++ rest)).head?, c.isDigit = false := by
  intro c hc
  cases hfraction : x.fraction? with
  | none =>
    rw [hfraction] at hc
    exact (head_exponent x.exponent? h c hc).1
  | some digits =>
    rw [hfraction] at hc
    obtain rfl := Option.some.inj hc
    rfl

theorem unsigned_zero {s : List Char} (h : ∀ c ∈ s.head?, c.isDigit = false) :
    unsigned atEnd ('0' :: s) = (fun p => ('0' :: p.1, p.2)) <$> fraction atEnd s := by
  unfold unsigned
  dsimp only
  rw [if_pos rfl]
  cases s with
  | nil => rfl
  | cons d s =>
    have hd : ¬ d.isDigit = true := by simp [h d rfl]
    dsimp only
    rw [if_neg hd]
    exact (map_eq_pure_bind _ _).symm

theorem unsigned_digits {c : Char} {digits s : List Char} (hc : c.isDigit = true) (hzero : c ≠ '0')
    (hdigits : ∀ d ∈ digits, d.isDigit = true) (hs : ∀ c ∈ s.head?, c.isDigit = false) :
    unsigned atEnd (c :: digits ++ s) =
      (fun p => (c :: digits ++ p.1, p.2)) <$> fraction atEnd s := by
  rw [List.cons_append]
  unfold unsigned
  dsimp only
  rw [if_neg hzero, if_pos hc, Text.takeWhile_append_of_head hdigits hs,
    Text.dropWhile_append_of_head hdigits hs]
  exact (map_eq_pure_bind _ _).symm

theorem unsigned_append (x : Number) {s : List Char} (hs : ∀ c ∈ s.head?, c.isDigit = false) :
    unsigned atEnd (x.integer ++ s) = (fun p => (x.integer ++ p.1, p.2)) <$> fraction atEnd s := by
  obtain ⟨hne, hall⟩ := x.isDigits_integer
  obtain ⟨c, digits, hx⟩ := List.exists_cons_of_ne_nil hne
  by_cases hzero : c = '0'
  · rw [x.eq_zero (by rw [hx, hzero]; rfl)]
    exact unsigned_zero hs
  · rw [hx, List.forall_mem_cons] at hall
    rw [hx]
    exact unsigned_digits hall.1 hzero hall.2 hs

theorem number_minus (s : List Char) :
    number atEnd ('-' :: s) = (fun p => ('-' :: p.1, p.2)) <$> unsigned atEnd s := by
  rw [number]
  exact (map_eq_pure_bind _ _).symm

theorem number_digit {c : Char} (h : c.isDigit = true) (s : List Char) :
    number atEnd (c :: s) = unsigned atEnd (c :: s) := by
  unfold number
  split
  · next heq =>
    rw [(List.cons_eq_cons.mp heq).1] at h
    cases h
  · rfl

/-- A number is read up to its end, and its text is kept but for the way its exponent is written. -/
theorem number_spelled (x : Number) (h : EndsNumber rest) :
    number atEnd (x.spelled ++ rest) = .ok (x.kept, rest) := by
  have hmagnitude : unsigned atEnd (x.integer ++ (Number.fractionText x.fraction? ++
      (x.exponent?.elim [] Exponent.spelled ++ rest))) =
      .ok (x.integer ++ (Number.fractionText x.fraction? ++ x.exponent?.elim [] Exponent.kept),
        rest) := by
    rw [unsigned_append x (head_fraction x h), fraction_optional x h]
    rfl
  rw [Number.spelled, Number.kept, Number.written, Number.written]
  simp only [List.append_assoc]
  cases x.negative with
  | true =>
    rw [if_pos rfl, List.singleton_append, number_minus, hmagnitude]
    rfl
  | false =>
    obtain ⟨hne, hall⟩ := x.isDigits_integer
    obtain ⟨c, digits, hx⟩ := List.exists_cons_of_ne_nil hne
    rw [hx] at hmagnitude ⊢
    exact (number_digit (hall c (by simp [hx])) _).trans hmagnitude

/-! ## What is read is a number -/

section Sound

variable {s digits : List Char}

theorem isDigits_takeWhile {c : Char} (h : c.isDigit = true) (s : List Char) :
    IsDigits (c :: s.takeWhile Char.isDigit) :=
  ⟨List.cons_ne_nil _ _, List.forall_mem_cons.mpr ⟨h, fun _ hd => List.mem_takeWhile_imp hd⟩⟩

theorem exponentDigits_sound (h : exponentDigits atEnd s = .ok (digits, rest)) :
    IsDigits digits ∧ s = digits ++ rest := by
  cases s with
  | nil => cases h
  | cons c s =>
    rw [exponentDigits] at h
    split_ifs at h with hc
    cases h
    refine ⟨isDigits_takeWhile hc s, ?_⟩
    rw [List.cons_append, List.takeWhile_append_dropWhile]

theorem exponent_sound (h : exponent atEnd s = .ok (digits, rest)) :
    ∃ x? : Option Exponent, s = x?.elim [] Exponent.spelled ++ rest ∧
      digits = x?.elim [] Exponent.kept := by
  cases s with
  | nil =>
    cases h
    exact ⟨none, rfl, rfl⟩
  | cons letter s =>
    unfold exponent at h
    dsimp only at h
    split_ifs at h with hletter
    · have hletter : letter ∈ ['e', 'E'] := by simpa using hletter
      obtain ⟨⟨exponentPart, rest'⟩, hdigits, hend⟩ := bind_eq_ok_iff.mp h
      cases hend
      split at hdigits
      all_goals
        obtain ⟨hall, hs⟩ := exponentDigits_sound hdigits
      · exact ⟨some ⟨letter, some '+', exponentPart, hletter, by simp, hall⟩, by
          simp [Exponent.spelled, ← hs], rfl⟩
      · exact ⟨some ⟨letter, some '-', exponentPart, hletter, by simp, hall⟩, by
          simp [Exponent.spelled, ← hs], rfl⟩
      · exact ⟨some ⟨letter, none, exponentPart, hletter, by simp, hall⟩, by
          simp [Exponent.spelled, ← hs], rfl⟩
    · cases h
      exact ⟨none, rfl, rfl⟩

theorem fraction_sound (h : fraction atEnd s = .ok (digits, rest)) :
    ∃ (fraction? : Option (List Char)) (x? : Option Exponent),
      (∀ digits ∈ fraction?, IsDigits digits) ∧
      s = Number.fractionText fraction? ++ (x?.elim [] Exponent.spelled ++ rest) ∧
      digits = Number.fractionText fraction? ++ x?.elim [] Exponent.kept := by
  unfold fraction at h
  split at h
  · next s =>
    dsimp only at h
    split_ifs at h with hempty
    · split at h <;> cases h
    · obtain ⟨⟨tail, rest'⟩, htail, hend⟩ := bind_eq_ok_iff.mp h
      cases hend
      obtain ⟨x?, hs, rfl⟩ := exponent_sound htail
      refine ⟨some (s.takeWhile Char.isDigit), x?, ?_, ?_, rfl⟩
      · rintro _ ⟨⟩
        exact ⟨by simpa using hempty, fun _ hd => List.mem_takeWhile_imp hd⟩
      · rw [← hs, Number.fractionText, Option.elim_some, List.cons_append,
          List.takeWhile_append_dropWhile]
  · obtain ⟨x?, hs, rfl⟩ := exponent_sound h
    exact ⟨none, x?, nofun, hs, rfl⟩

theorem unsigned_sound (h : unsigned atEnd s = .ok (digits, rest)) :
    ∃ x : Number, x.negative = false ∧ s = x.spelled ++ rest ∧ digits = x.kept := by
  have hnumber : ∀ {integer tail after : List Char}, IsDigits integer →
      (integer.head? = some '0' → integer = ['0']) → fraction atEnd after = .ok (tail, rest) →
      ∃ x : Number, x.negative = false ∧ integer ++ after = x.spelled ++ rest ∧
        integer ++ tail = x.kept := by
    intro integer tail after hinteger hzero htail
    obtain ⟨fraction?, x?, hfraction, rfl, rfl⟩ := fraction_sound htail
    exact ⟨⟨false, integer, fraction?, x?, hinteger, hzero, hfraction⟩, rfl, by
      simp [Number.spelled, Number.written], rfl⟩
  cases s with
  | nil => cases h
  | cons c s =>
    unfold unsigned at h
    dsimp only at h
    split_ifs at h with hzero hdigit
    · subst hzero
      cases s with
      | nil =>
        cases h
        exact @hnumber ['0'] [] [] (by decide) (fun _ => rfl) rfl
      | cons d s =>
        dsimp only at h
        split_ifs at h with hd
        · cases h
        · obtain ⟨⟨tail, rest'⟩, htail, hend⟩ := bind_eq_ok_iff.mp h
          cases hend
          exact @hnumber ['0'] _ _ (by decide) (fun _ => rfl) htail
    · obtain ⟨⟨tail, rest'⟩, htail, hend⟩ := bind_eq_ok_iff.mp h
      cases hend
      have hfirst := hnumber (isDigits_takeWhile hdigit s)
        (fun hhead => absurd (Option.some.inj hhead) hzero) htail
      rwa [List.cons_append, List.takeWhile_append_dropWhile] at hfirst

/-- What is read as a number is one, with what is left behind it. -/
theorem number_sound (h : number atEnd s = .ok (digits, rest)) :
    ∃ x : Number, s = x.spelled ++ rest ∧ digits = x.kept := by
  unfold number at h
  split at h
  · obtain ⟨⟨magnitude, rest'⟩, hmagnitude, hend⟩ := bind_eq_ok_iff.mp h
    cases hend
    obtain ⟨x, hnegative, rfl, rfl⟩ := unsigned_sound hmagnitude
    exact ⟨{ x with negative := true }, by simp [Number.spelled, Number.written, hnegative], by
      simp [Number.kept, Number.written, hnegative]⟩
  · obtain ⟨x, -, hs, hdigits⟩ := unsigned_sound h
    exact ⟨x, hs, hdigits⟩

end Sound

end ApiClient.Json
