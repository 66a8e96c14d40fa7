import DirectiveSchema.Proofs.Rounding
import DirectiveSchema.Proofs.Verdict
import DirectiveSchema.Scalar

/-!
Texts as integers. A decimal numeral has an optional sign, digits with an optional point among or
around them, and an optional exponent. A text is coerced to an integer exactly if it is such a
numeral and denotes a number that is rounded to that integer, which need not be the number itself.
-/
namespace DirectiveSchema

/-! ### The grammar of numerals -/

namespace Numeral

/-- An optional sign, and whether it is a minus. -/
inductive Sign : List Char → Bool → Prop where
  | none : Sign [] false
  | plus : Sign ['+'] false
  | minus : Sign ['-'] true

/-- An optional point, and the digits after it. -/
inductive Fraction : List Char → List Char → Prop where
  | none : Fraction [] []
  | some {digits : List Char} : (∀ c ∈ digits, c.isDigit = true) → Fraction ('.' :: digits) digits

/-- An optional exponent, and what it denotes. -/
inductive Exponent : List Char → ℤ → Prop where
  | none : Exponent [] 0
  | some {mark : Char} {sign digits : List Char} {negative : Bool} : mark = 'e' ∨ mark = 'E' →
      Sign sign negative → isDigits digits = true →
        Exponent (mark :: (sign ++ digits)) (signed negative (digitsValue digits))

/-- A decimal numeral: it has a digit before the point or after it. -/
inductive IsDecimal : List Char → Decimal → Prop where
  | intro {sign whole point fraction mark : List Char} {negative : Bool} {exponent : ℤ} :
      Sign sign negative → (∀ c ∈ whole, c.isDigit = true) → Fraction point fraction →
        (whole ≠ [] ∨ fraction ≠ []) → Exponent mark exponent →
          IsDecimal (sign ++ (whole ++ (point ++ mark)))
            ⟨negative, digitsValue (whole ++ fraction), exponent - fraction.length⟩

/-- What a text denotes: it is a decimal numeral, after the blanks around it and the underscores
between its digits were dropped. -/
def Denotes (text : String) (q : ℚ) : Prop :=
  ∃ cs d, bare? text.toList = some cs ∧ IsDecimal cs d ∧ d.value = q

/-! ### Reading numerals -/

theorem sign_spec {cs r : List Char} {negative : Bool} (h : sign cs = (negative, r)) :
    ∃ s, Sign s negative ∧ cs = s ++ r := by
  unfold sign at h
  split at h <;> cases h
  · exact ⟨_, .minus, rfl⟩
  · exact ⟨_, .plus, rfl⟩
  · exact ⟨_, .none, rfl⟩

theorem Sign.sign_append {s r : List Char} {negative : Bool} (h : Sign s negative)
    (unsigned : ∀ c ∈ r.head?, c ≠ '+' ∧ c ≠ '-') : sign (s ++ r) = (negative, r) := by
  cases h with
  | plus => rfl
  | minus => rfl
  | none =>
    rw [List.nil_append]
    unfold sign
    split
    · exact absurd rfl (unsigned _ rfl).2
    · exact absurd rfl (unsigned _ rfl).1
    · rfl

theorem spanDigits_append {ds r : List Char} (digits : ∀ c ∈ ds, c.isDigit = true)
    (ends : ∀ c ∈ r.head?, c.isDigit = false) : spanDigits (ds ++ r) = (ds, r) := by
  rw [spanDigits, List.takeWhile_append_of_pos digits, List.dropWhile_append_of_pos digits]
  cases r with
  | nil => simp
  | cons c r => simp [ends c rfl]

theorem spanDigits_spec {cs ds r : List Char} (h : spanDigits cs = (ds, r)) :
    cs = ds ++ r ∧ ∀ c ∈ ds, c.isDigit = true := by
  cases h
  exact ⟨List.takeWhile_append_dropWhile.symm, List.all_eq_true.1 List.all_takeWhile⟩

theorem fraction_spec {cs ds r : List Char} (h : fraction cs = (ds, r)) :
    ∃ point, Fraction point ds ∧ cs = point ++ r := by
  unfold fraction at h
  split at h
  · obtain ⟨same, digits⟩ := spanDigits_spec h
    exact ⟨_, .some digits, congrArg ('.' :: ·) same⟩
  · cases h
    exact ⟨[], .none, rfl⟩

theorem isDigits_iff {cs : List Char} :
    isDigits cs = true ↔ cs ≠ [] ∧ ∀ c ∈ cs, c.isDigit = true := by
  simp [isDigits]

theorem not_sign_of_isDigit {c : Char} (h : c.isDigit = true) : c ≠ '+' ∧ c ≠ '-' := by
  constructor <;> rintro rfl <;> cases h

theorem exponent?_iff {cs : List Char} {e : ℤ} : exponent? cs = some e ↔ Exponent cs e := by
  constructor
  · intro h
    cases cs with
    | nil =>
      cases h
      exact .none
    | cons c r =>
      generalize parts : sign r = p at h
      simp only [exponent?, parts] at h
      obtain ⟨negative, digits⟩ := p
      obtain ⟨s, signs, rfl⟩ := sign_spec parts
      split_ifs at h with mark all
      cases h
      exact .some (by simpa using mark) signs all
  · intro h
    cases h with
    | none => rfl
    | @some mark sign digits negative marked signs all =>
      have unsigned : ∀ c ∈ digits.head?, c ≠ '+' ∧ c ≠ '-' := fun c hc =>
        not_sign_of_isDigit ((isDigits_iff.1 all).2 c (List.mem_of_mem_head? hc))
      have read := signs.sign_append unsigned
      have mark : (mark == 'e' || mark == 'E') = true := by simpa using marked
      simp only [exponent?, mark, read, all, if_true]

theorem Exponent.head {cs : List Char} {e : ℤ} (h : Exponent cs e) :
    ∀ c ∈ cs.head?, c = 'e' ∨ c = 'E' := by
  cases h with
  | none => intro c hc; cases hc
  | some marked _ _ => rintro c ⟨⟩; exact marked

theorem fraction_append {point digits mark : List Char} {e : ℤ} (h : Fraction point digits)
    (exponent : Exponent mark e) : fraction (point ++ mark) = (digits, mark) := by
  have marked := exponent.head
  cases h with
  | none =>
    rw [List.nil_append]
    unfold fraction
    split
    · rcases marked _ rfl with h | h <;> cases h
    · rfl
  | some all =>
    apply spanDigits_append all
    intro c hc
    rcases marked c hc with rfl | rfl <;> rfl

/-- After its sign a numeral goes on with a digit or with the point. -/
theorem head_of_decimal {whole point fraction : List Char}
    (digits : ∀ c ∈ whole, c.isDigit = true) (points : Fraction point fraction)
    (some : whole ≠ [] ∨ fraction ≠ []) (mark : List Char) :
    ∃ c r, whole ++ (point ++ mark) = c :: r ∧ (c.isDigit = true ∨ c = '.') := by
  cases whole with
  | cons c cs => exact ⟨c, _, rfl, .inl (digits c List.mem_cons_self)⟩
  | nil =>
    cases points with
    | none => simp at some
    | some _ => exact ⟨'.', _, rfl, .inr rfl⟩

theorem bareDecimal?_iff {cs : List Char} {d : Decimal} :
    bareDecimal? cs = some d ↔ IsDecimal cs d := by
  constructor
  · intro h
    obtain ⟨⟨negative, r⟩, first⟩ : ∃ p, sign cs = p := ⟨_, rfl⟩
    obtain ⟨⟨whole, r'⟩, second⟩ : ∃ p, spanDigits r = p := ⟨_, rfl⟩
    obtain ⟨⟨frac, mark⟩, third⟩ : ∃ p, fraction r' = p := ⟨_, rfl⟩
    simp only [bareDecimal?, first, second, third] at h
    obtain ⟨s, signs, rfl⟩ := sign_spec first
    obtain ⟨rfl, digits⟩ := spanDigits_spec second
    obtain ⟨point, points, rfl⟩ := fraction_spec third
    split_ifs at h with none
    obtain ⟨e, read, rfl⟩ := Option.map_eq_some_iff.1 h
    apply IsDecimal.intro signs digits points _ (exponent?_iff.1 read)
    simpa [← not_and_or] using none
  · rintro ⟨signs, digits, points, some, exponent⟩
    rename_i s whole point fraction mark negative e
    obtain ⟨c, r, head, first⟩ := head_of_decimal digits points some mark
    have unsigned : ∀ c ∈ (whole ++ (point ++ mark)).head?, c ≠ '+' ∧ c ≠ '-' := by
      rw [head]
      rintro c ⟨⟩
      rcases first with digit | rfl
      · exact not_sign_of_isDigit digit
      · decide
    have ends : ∀ c ∈ (point ++ mark).head?, c.isDigit = false := by
      cases points with
      | none =>
        intro c hc
        rcases exponent.head c hc with rfl | rfl <;> rfl
      | some _ =>
        rintro c ⟨⟩
        rfl
    have read : (whole.isEmpty && fraction.isEmpty) = false := by
      rcases some with some | some <;> simp [some]
    simp only [bareDecimal?, signs.sign_append unsigned, spanDigits_append digits ends,
      fraction_append points exponent, read, exponent?_iff.2 exponent]
    rfl

/-- A numeral denotes one number only. -/
theorem Denotes.unique {text : String} {p q : ℚ} (h : Denotes text p) (h' : Denotes text q) :
    p = q := by
  obtain ⟨cs, d, bare, decimal, rfl⟩ := h
  obtain ⟨cs', d', bare', decimal', rfl⟩ := h'
  cases bare.symm.trans bare'
  cases (bareDecimal?_iff.2 decimal).symm.trans (bareDecimal?_iff.2 decimal')
  rfl

/-- An integer numeral is a decimal one, and denotes that integer. -/
theorem denotes_of_bareInteger? {cs : List Char} {i : ℤ} (h : bareInteger? cs = some i) :
    ∃ d, IsDecimal cs d ∧ d.value = i := by
  obtain ⟨⟨negative, r⟩, first⟩ : ∃ p, sign cs = p := ⟨_, rfl⟩
  obtain ⟨s, signs, rfl⟩ := sign_spec first
  simp only [bareInteger?, first] at h
  split_ifs at h with read
  cases h
  obtain ⟨some, digits⟩ := isDigits_iff.1 (Bool.and_eq_true_iff.1 read).1
  have decimal := IsDecimal.intro signs digits .none (.inl some) .none
  simp only [List.append_nil] at decimal
  refine ⟨_, decimal, ?_⟩
  cases negative <;> simp [Decimal.value, Decimal.magnitude, signed]

theorem toLower_of_digit {c : Char} (h : c.isDigit = true ∨ c = '.') : c.toLower = c := by
  rcases h with digit | rfl
  · simp only [Char.isDigit, Bool.and_eq_true, decide_eq_true_eq] at digit
    unfold Char.toLower
    rw [dif_neg]
    rintro ⟨upper, -⟩
    exact absurd (UInt32.le_trans upper digit.2) (by decide)
  · rfl

/-- The names of values are no numerals. -/
theorem IsDecimal.not_named {cs : List Char} {d : Decimal} (h : IsDecimal cs d) :
    bareNamed? cs = none := by
  obtain ⟨signs, digits, points, some, exponent⟩ := h
  rename_i s whole point fraction mark negative e
  obtain ⟨c, r, head, first⟩ := head_of_decimal digits points some mark
  have unsigned : ∀ c ∈ (whole ++ (point ++ mark)).head?, c ≠ '+' ∧ c ≠ '-' := by
    rw [head]
    rintro c ⟨⟩
    rcases first with digit | rfl
    · exact not_sign_of_isDigit digit
    · decide
  have different {word : String} (w : Char) {ws : List Char} (spelt : word.toList = w :: ws)
      (letter : w.isDigit = false ∧ w ≠ '.') :
      String.ofList ((whole ++ (point ++ mark)).map Char.toLower) ≠ word := by
    intro same
    have characters := congrArg String.toList same
    rw [String.toList_ofList, spelt, head, List.map_cons, toLower_of_digit first] at characters
    cases characters
    rcases first with digit | rfl
    · rw [letter.1] at digit
      cases digit
    · exact letter.2 rfl
  rw [bareNamed?, signs.sign_append unsigned]
  simp only
  rw [if_neg, if_neg]
  · exact different 'n' rfl (by decide)
  · rintro (same | same)
    · exact different 'i' rfl (by decide) same
    · exact different 'i' rfl (by decide) same

end Numeral

/-! ### Texts as integers -/

namespace Binary64

/-- A whole number is near itself and near no other one. -/
theorem near_intCast_iff {i j : ℤ} (small : i.natAbs < 2 ^ 32) : Near i (j : ℚ) ↔ j = i := by
  rw [Near, ← Int.cast_abs, ← Int.cast_mul, Int.cast_nonneg_iff]
  constructor
  · rintro ⟨sign, rounds⟩
    obtain ⟨lower, upper⟩ := rounds.near small
    have below : ((i.natAbs : ℤ) : ℚ) < (|j| + 1 : ℤ) := by
      rw [Int.cast_natCast, Int.cast_add, Int.cast_one]
      linarith
    have above : ((|j| : ℤ) : ℚ) < (i.natAbs + 1 : ℤ) := by
      rw [Int.cast_add, Int.cast_natCast, Int.cast_one]
      linarith
    have same : |j| = |i| := by
      have := Int.cast_lt.1 below
      have := Int.cast_lt.1 above
      rw [Int.natCast_natAbs] at *
      omega
    rcases abs_eq_abs.1 same with same | opposite
    · exact same
    · rw [opposite, mul_neg, neg_nonneg] at sign
      have : i = 0 := by nlinarith
      omega
  · rintro rfl
    refine ⟨mul_self_nonneg _, ?_⟩
    have above := halfAbove_nonneg j.natAbs
    have below := halfBelow_nonneg j.natAbs
    rw [RoundsTo, Nat.cast_natAbs]
    constructor <;> linarith

/-- A named value is not whole. -/
theorem whole?_of_named {cs : List Char} {x : Binary64} (h : Numeral.bareNamed? cs = some x) :
    whole? x = none := by
  simp only [Numeral.bareNamed?] at h
  split_ifs at h <;> cases h <;> rfl

end Binary64

namespace Scalars

open Binary64 Numeral

variable {text : String} {v : Value} {n : ℤ}

/-- A text denotes an integer for a scalar if it denotes a number near that integer. -/
theorem integerOfText?_iff (small : n.natAbs < 2 ^ 32) :
    integerOfText? text = some n ↔ ∃ q, Denotes text q ∧ Near n q := by
  have fractions : (ofText? text).bind whole? = some n ↔ ∃ q, Denotes text q ∧ Near n q := by
    constructor
    · intro h
      obtain ⟨x, read, whole⟩ := Option.bind_eq_some_iff.1 h
      obtain ⟨cs, bare, read⟩ := Option.bind_eq_some_iff.1 read
      cases named : bareNamed? cs with
      | some y =>
        simp only [named, Option.some.injEq] at read
        rw [← read, whole?_of_named named] at whole
        cases whole
      | none =>
        simp only [named] at read
        obtain ⟨d, decimal, rfl⟩ := Option.map_eq_some_iff.1 read
        refine ⟨d.value, ⟨cs, d, bare, bareDecimal?_iff.1 decimal, rfl⟩, ?_⟩
        exact (Decimal.whole?_toBinary64_iff small).1 whole
    · rintro ⟨_, ⟨cs, d, bare, decimal, rfl⟩, near⟩
      have read : ofText? text = some d.toBinary64 := by
        rw [ofText?, ofChars?, bare]
        simp [decimal.not_named, bareDecimal?_iff.2 decimal]
      rw [read]
      exact (Decimal.whole?_toBinary64_iff small).2 near
  unfold integerOfText?
  cases read : Numeral.integer? text with
  | none => exact fractions
  | some m =>
    obtain ⟨cs, bare, integer⟩ := Option.bind_eq_some_iff.1 read
    obtain ⟨d, decimal, value⟩ := denotes_of_bareInteger? integer
    have denoted : Denotes text m := ⟨cs, d, bare, decimal, value⟩
    constructor
    · rintro ⟨⟩
      exact ⟨n, denoted, (near_intCast_iff small).2 rfl⟩
    · rintro ⟨q, denotes, near⟩
      rw [denotes.unique denoted] at near
      exact congrArg some ((near_intCast_iff small).1 near)

theorem wholeNumber_of_text (spelt : v.text? = some text) (supply : Supplier) (s : Session) :
    wholeNumber supply v s = match integerOfText? text with
    | some n => .ok n s
    | none => .error (.notInteger (if text = "" then "(empty string)" else text)) s := by
  by_cases empty : text = ""
  · subst empty
    cases v with
    | text t =>
      cases spelt
      rfl
    | location l => exact absurd (Option.some.inj spelt) (by cases l <;> decide)
    | _ => cases spelt
  · cases v with
    | text t =>
      cases spelt
      simp only [wholeNumber, Value.text?]
      cases integerOfText? text with
      | some n => rfl
      | none => simp only [if_neg empty]; rfl
    | location l =>
      cases spelt
      simp only [wholeNumber, Value.text?]
      cases integerOfText? l.tag with
      | some n => rfl
      | none => simp only [if_neg empty]; rfl
    | _ => cases spelt

/-- How a text is coerced. -/
theorem integer_of_text (spelt : v.text? = some text) (supply : Supplier) (s : Session) :
    (∃ n, integerOfText? text = some n ∧ inRange n = true ∧ integer supply v s = .ok n s) ∨
      (∀ n, integerOfText? text = some n → inRange n = false) ∧
        ∃ f, integer supply v s = .error f s ∧ f.kind = .value := by
  have whole := wholeNumber_of_text spelt supply s
  rw [integer]
  cases read : integerOfText? text with
  | none =>
    rw [read] at whole
    refine .inr ⟨fun n h => (nomatch h), _, Action.bind_of_error whole, rfl⟩
  | some n =>
    rw [read] at whole
    rw [Action.bind_of_ok whole]
    cases range : inRange n with
    | true => exact .inl ⟨n, rfl, range, by simp only [if_true]; rfl⟩
    | false =>
      have shown : Display.filled supply v s = .ok text s := by
        have single : v.row? = none := by cases v <;> first | rfl | cases spelt
        rw [Display.filled, Display.fill, single]
        exact Validation.label_of_text spelt s
      refine .inr ⟨by rintro m ⟨⟩; exact range, .integerOutOfRange text, ?_, rfl⟩
      simp only [Bool.false_eq_true, if_false]
      rw [Action.bind_of_ok shown]
      rfl

/-- A text is coerced to an integer exactly if it is a numeral that denotes a number near it, and
the integer has 32 bits; any other text is rejected. -/
theorem texts_are_coerced_by_rounding (spelt : v.text? = some text) (supply : Supplier)
    (s : Session) :
    (∀ n, integer supply v s = .ok n s ↔
      (-2147483648 ≤ n ∧ n ≤ 2147483647) ∧ ∃ q, Denotes text q ∧ Near n q) ∧
    ((∃ n, integer supply v s = .ok n s) ∨ ∃ f, integer supply v s = .error f s ∧
      f.kind = .value) := by
  have range {n : ℤ} : inRange n = true ↔ -2147483648 ≤ n ∧ n ≤ 2147483647 := by
    rw [inRange, minInteger, maxInteger, decide_eq_true_eq]
  rcases integer_of_text spelt supply s with
    ⟨m, read, inside, run⟩ | ⟨outside, f, run, kind⟩
  · refine ⟨fun n => ?_, .inl ⟨m, run⟩⟩
    constructor
    · intro h
      cases run.symm.trans h
      have bounds := range.1 inside
      exact ⟨bounds, (integerOfText?_iff (by omega)).1 read⟩
    · rintro ⟨bounds, near⟩
      cases read.symm.trans ((integerOfText?_iff (by omega)).2 near)
      exact run
  · refine ⟨fun n => ?_, .inr ⟨f, run, kind⟩⟩
    constructor
    · intro h
      cases run.symm.trans h
    · rintro ⟨bounds, near⟩
      have := outside n ((integerOfText?_iff (by omega)).2 near)
      rw [range.2 bounds] at this
      cases this

/-- A numeral with a small fraction. -/
def nearlyOne : String := "1.00000000000000000001"

theorem nearlyOne_is_coerced_to_one : (Value.text nearlyOne).text? = some nearlyOne ∧
    Denotes nearlyOne (1 + 10 ^ (-20 : ℤ)) ∧ Near 1 (1 + 10 ^ (-20 : ℤ)) ∧
    integer Deferred.supplier (.text nearlyOne) BuiltIn.session = .ok 1 BuiltIn.session := by
  have denotes : Denotes nearlyOne (1 + 10 ^ (-20 : ℤ)) := by
    refine ⟨nearlyOne.toList, ⟨false, 100000000000000000001, -20⟩, by decide,
      bareDecimal?_iff.1 (by decide), ?_⟩
    norm_num [Decimal.value, Decimal.magnitude]
  have near : Near 1 (1 + 10 ^ (-20 : ℤ)) := by
    have log : Nat.log2 1 = 0 := by decide
    have above : halfAbove 1 = 2 ^ (-53 : ℤ) := by
      rw [halfAbove, if_neg one_ne_zero, log]
      rfl
    constructor <;> norm_num [RoundsTo, halfBelow, above, log, abs_of_pos]
  have spelt : (Value.text nearlyOne).text? = some nearlyOne := rfl
  have decided := texts_are_coerced_by_rounding spelt Deferred.supplier BuiltIn.session
  exact ⟨spelt, denotes, near, (decided.1 1).2 ⟨by decide, _, denotes, near⟩⟩

end Scalars

end DirectiveSchema
