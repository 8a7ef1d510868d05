import Lox.Proofs.LongestMatch
import Mathlib.Algebra.Order.Field.Rat
import Mathlib.Tactic.Ring

/-!
# Number texts tell numbers apart

The text of a finite double is a numeral: digits, perhaps a point and more digits, perhaps
an exponent. It is read back as a decimal with the value of the decimal that was chosen for
the double, and a decimal rounds to one double only, for the intervals of two doubles have
no point in common. So the text tells which double it is. The words for the doubles that
are not finite are no numerals, and a minus sign is kept, also that of zero.
-/
namespace Lox.Decimal

/-- The number that a decimal stands for. -/
def value (d : Decimal) : ℚ := d.digits * 10 ^ d.exponent

/-- Twice that number, in steps of the smallest positive double. -/
def doubled (d : Decimal) : ℚ := d.value * twoTo 1075

theorem cast_tenTo (k : Nat) : (tenTo k : ℚ) = 10 ^ k := Nat.cast_pow 10 k

theorem cast_twice (d : Decimal) :
    ((d.digits * tenTo d.exponent.toNat * twoTo 1075 : Nat) : ℚ) =
      d.doubled * tenTo (-d.exponent).toNat := by
  have hexp : (10 : ℚ) ^ d.exponent * 10 ^ (-d.exponent).toNat = 10 ^ d.exponent.toNat := by
    rw [← zpow_natCast, ← zpow_natCast, ← zpow_add₀ (by norm_num)]
    congr 1
    omega
  rw [doubled, value, Nat.cast_mul, Nat.cast_mul, cast_tenTo, cast_tenTo, ← hexp]
  ring

theorem readsBack_iff (n : Nat) (d : Decimal) : readsBack n d = true ↔
    if n % 2 = 0 then
      ((magnitude (n - 1) + magnitude n : Nat) : ℚ) ≤ d.doubled ∧
        d.doubled ≤ (magnitude n + magnitude (n + 1) : Nat)
    else
      ((magnitude (n - 1) + magnitude n : Nat) : ℚ) < d.doubled ∧
        d.doubled < (magnitude n + magnitude (n + 1) : Nat) := by
  have hpos : (0 : ℚ) < tenTo (-d.exponent).toNat := by exact_mod_cast tenTo_pos _
  have hle (m : Nat) : m * tenTo (-d.exponent).toNat ≤
      d.digits * tenTo d.exponent.toNat * twoTo 1075 ↔ (m : ℚ) ≤ d.doubled := by
    rw [← Nat.cast_le (α := ℚ), cast_twice, Nat.cast_mul, mul_le_mul_iff_left₀ hpos]
  have hge (m : Nat) : d.digits * tenTo d.exponent.toNat * twoTo 1075 ≤
      m * tenTo (-d.exponent).toNat ↔ d.doubled ≤ m := by
    rw [← Nat.cast_le (α := ℚ), cast_twice, Nat.cast_mul, mul_le_mul_iff_left₀ hpos]
  unfold readsBack
  dsimp only
  split
  · rw [Bool.and_eq_true, decide_eq_true_eq, decide_eq_true_eq, hle, hge]
  · rw [Bool.and_eq_true, decide_eq_true_eq, decide_eq_true_eq, ← not_le, ← not_le, hle, hge,
      not_le, not_le]

theorem magnitude_strictMono : StrictMono magnitude := strictMono_nat_of_lt_succ magnitude_lt_succ

/-- Where the intervals of two neighbours meet, only the even one has the point between
them. -/
theorem not_readsBack_of_lt {n m : Nat} {d d' : Decimal} (hlt : n < m)
    (hvalue : d.value = d'.value) (h : readsBack n d = true) : readsBack m d' ≠ true := by
  have hdoubled : d.doubled = d'.doubled := by rw [doubled, doubled, hvalue]
  have hlow : magnitude n ≤ magnitude (m - 1) := magnitude_strictMono.monotone (by omega)
  have hhigh : magnitude (n + 1) ≤ magnitude m := magnitude_strictMono.monotone hlt
  intro h'
  rw [readsBack_iff] at h h'
  rw [← hdoubled] at h'
  by_cases hn : n % 2 = 0
  · rw [if_pos hn] at h
    by_cases hm : m % 2 = 0
    · -- Two even numbers are no neighbours.
      rw [if_pos hm] at h'
      have hle : magnitude (m - 1) + magnitude m ≤ magnitude n + magnitude (n + 1) := by
        exact_mod_cast h'.1.trans h.2
      have hstrict : magnitude (n + 1) < magnitude m := magnitude_strictMono (by omega)
      omega
    · rw [if_neg hm] at h'
      have hcross : magnitude (m - 1) + magnitude m < magnitude n + magnitude (n + 1) := by
        exact_mod_cast h'.1.trans_le h.2
      omega
  · rw [if_neg hn] at h
    have hle : ((magnitude (m - 1) + magnitude m : Nat) : ℚ) ≤ d.doubled := by
      split at h'
      · exact h'.1
      · exact h'.1.le
    have hcross : magnitude (m - 1) + magnitude m < magnitude n + magnitude (n + 1) := by
      exact_mod_cast hle.trans_lt h.2
    omega

/-- A decimal rounds to one double only. -/
theorem readsBack_unique {n m : Nat} {d d' : Decimal} (hvalue : d.value = d'.value)
    (h : readsBack n d = true) (h' : readsBack m d' = true) : n = m := by
  rcases Nat.lt_trichotomy n m with hlt | heq | hgt
  · exact absurd h' (not_readsBack_of_lt hlt hvalue h)
  · exact heq
  · exact absurd h (not_readsBack_of_lt hgt hvalue.symm h')

theorem natOfDigits_append (xs ys : List Char) :
    natOfDigits (xs ++ ys) = natOfDigits xs * 10 ^ ys.length + natOfDigits ys := by
  change Nat.ofDigitChars 10 (xs ++ ys) 0 =
    Nat.ofDigitChars 10 xs 0 * _ + Nat.ofDigitChars 10 ys 0
  rw [Nat.ofDigitChars_append, Nat.ofDigitChars_eq_ofDigitChars_zero]
  ring

theorem natOfDigits_zeros (k : Nat) : natOfDigits (List.replicate k '0') = 0 := by
  change Nat.ofDigitChars 10 (List.replicate k '0') 0 = 0
  rw [Nat.ofDigitChars_replicate_zero]
  rfl

theorem natOfDigits_toDigits (n : Nat) : natOfDigits (Nat.toDigits 10 n) = n :=
  Nat.ofDigitChars_ten_toDigits

/-- A list of decimal digits. -/
def Digits (cs : List Char) : Prop := ∀ c ∈ cs, c.isDigit = true

theorem Digits.append {xs ys : List Char} (hx : Digits xs) (hy : Digits ys) :
    Digits (xs ++ ys) :=
  fun c hc => (List.mem_append.mp hc).elim (hx c) (hy c)

theorem Digits.take {cs : List Char} (h : Digits cs) (k : Nat) : Digits (cs.take k) :=
  fun c hc => h c (List.mem_of_mem_take hc)

theorem Digits.drop {cs : List Char} (h : Digits cs) (k : Nat) : Digits (cs.drop k) :=
  fun c hc => h c (List.mem_of_mem_drop hc)

theorem digits_zeros (k : Nat) : Digits (List.replicate k '0') := by
  intro c hc
  rw [List.eq_of_mem_replicate hc]
  rfl

theorem digits_toDigits (n : Nat) : Digits (Nat.toDigits 10 n) :=
  fun _ hc => Nat.isDigit_of_mem_toDigits (by decide) (by decide) hc

/-- The digits of an exponent, two or more. -/
def exponentDigits (e : Int) : List Char :=
  List.replicate (2 - (Nat.toDigits 10 e.natAbs).length) '0' ++ Nat.toDigits 10 e.natAbs

theorem toList_exponentText (e : Int) :
    (exponentText e).toList = (if e < 0 then '-' else '+') :: exponentDigits e := by
  unfold exponentText
  split <;> simp [exponentDigits]

theorem readExponent?_exponentText (e : Int) :
    readExponent? (exponentText e).toList = some e := by
  have hdigits : (exponentDigits e).all Char.isDigit = true :=
    List.all_eq_true.mpr ((digits_zeros _).append (digits_toDigits _))
  have hne : (exponentDigits e).isEmpty = false := by simp [exponentDigits]
  have hnat : natOfDigits (exponentDigits e) = e.natAbs := by
    rw [exponentDigits, natOfDigits_append, natOfDigits_zeros, natOfDigits_toDigits]
    omega
  rw [toList_exponentText]
  split
  · simp only [readExponent?, takeSign, hdigits, hne, hnat, Bool.not_true, Bool.or_false,
      Bool.false_eq_true, if_false, if_true, Option.some.injEq]
    omega
  · simp only [readExponent?, takeSign, hdigits, hne, hnat, Bool.not_true, Bool.or_false,
      Bool.false_eq_true, if_false, Option.some.injEq]
    omega

/-- Digits in front of a point, digits behind it, and an exponent. -/
structure Numeral where
  whole : List Char
  fraction : List Char
  exponent : Option Int

namespace Numeral

/-- A point without digits behind it is left out. -/
def chars (x : Numeral) : List Char :=
  (Piece.number x.whole x.fraction).text ++
    match x.exponent with
    | none => []
    | some e => 'e' :: (exponentText e).toList

structure Regular (x : Numeral) : Prop where
  whole_ne : x.whole ≠ []
  whole : Digits x.whole
  fraction : Digits x.fraction

def decimal (x : Numeral) : Decimal :=
  ⟨natOfDigits (x.whole ++ x.fraction), -(x.fraction.length : Int) + x.exponent.getD 0⟩

theorem text_number (whole fraction : List Char) : (Piece.number whole fraction).text =
    whole ++ if fraction = [] then [] else '.' :: fraction := by
  cases fraction <;> simp [Piece.text]

/-- A numeral is read as the decimal that it spells. -/
theorem read?_chars {x : Numeral} (h : x.Regular) : read? x.chars = some x.decimal := by
  obtain ⟨whole, fraction, exponent⟩ := x
  cases exponent with
  | none =>
      rw [chars, List.append_nil, Piece.read?_of_digits h.whole_ne h.whole h.fraction]
      simp [decimal, ofDigits]
  | some e =>
      have hempty : whole.isEmpty = false := List.isEmpty_eq_false_iff.mpr h.whole_ne
      have hmark : ∀ c ∈ ('e' :: (exponentText e).toList).head?, c.isDigit = false := by
        intro c hc
        cases hc
        rfl
      cases fraction with
      | nil =>
          obtain ⟨htake, hdrop⟩ := Piece.span_append h.whole hmark
          simp [read?, chars, Piece.text, htake, hdrop, hempty, readExponent?_exponentText,
            ofDigits, decimal]
      | cons d fs =>
          have hpoint : ∀ c ∈ ('.' :: (d :: fs ++ 'e' :: (exponentText e).toList)).head?,
              c.isDigit = false := by
            intro c hc
            cases hc
            rfl
          obtain ⟨htake, hdrop⟩ := Piece.span_append h.whole hpoint
          obtain ⟨htake', hdrop'⟩ := Piece.span_append h.fraction hmark
          simp only [List.cons_append] at htake hdrop htake' hdrop'
          simp [read?, chars, Piece.text, htake, hdrop, htake', hdrop', hempty,
            readExponent?_exponentText, ofDigits, decimal]

theorem Regular.exists_first {x : Numeral} (h : x.Regular) :
    ∃ c cs, x.chars = c :: cs ∧ c.isDigit = true := by
  obtain ⟨c, cs, hwhole⟩ := List.exists_cons_of_ne_nil h.whole_ne
  rw [chars, text_number, hwhole]
  exact ⟨c, _, rfl, h.whole c (by simp [hwhole])⟩

theorem isAlphanum_of_isDigit {c : Char} (h : c.isDigit = true) : c.isAlphanum = true := by
  rw [Char.isAlphanum, h, Bool.or_true]

theorem Regular.isAlphanum_or_mem {x : Numeral} (h : x.Regular) {c : Char} (hc : c ∈ x.chars) :
    c.isAlphanum = true ∨ c ∈ ['.', '+', '-'] := by
  have hdigits {cs : List Char} (hcs : Digits cs) (hmem : c ∈ cs) : c.isAlphanum = true :=
    isAlphanum_of_isDigit (hcs c hmem)
  rw [chars, text_number, List.mem_append, List.mem_append] at hc
  rcases hc with (hwhole | hfraction) | hexponent
  · exact .inl (hdigits h.whole hwhole)
  · split at hfraction
    · cases hfraction
    · rcases List.mem_cons.mp hfraction with rfl | hmem
      · exact .inr (by simp)
      · exact .inl (hdigits h.fraction hmem)
  · split at hexponent
    · cases hexponent
    · rename_i e _
      rw [toList_exponentText, List.mem_cons, List.mem_cons] at hexponent
      rcases hexponent with rfl | rfl | hmem
      · exact .inl rfl
      · split <;> simp
      · exact .inl (hdigits ((digits_zeros _).append (digits_toDigits _)) hmem)

/-- The numeral `x` is what `text` shows, and stands for `v`. -/
structure Writes (x : Numeral) (text : String) (v : ℚ) : Prop where
  regular : x.Regular
  chars : text.toList = x.chars
  value : x.decimal.value = v

section
variable {ds : List Char} (hne : ds ≠ []) (hdigits : Digits ds) (e : Int)
include hne hdigits

theorem exists_positional :
    ∃ x : Numeral, x.Writes (positional "" ds e) (natOfDigits ds * 10 ^ (e + 1 - ds.length)) := by
  unfold positional
  split
  · -- All digits stand behind the point, behind some zeros.
    refine ⟨⟨['0'], List.replicate (-e - 1).toNat '0' ++ ds, none⟩, ⟨?_, ?_, ?_⟩, ?_, ?_⟩
    · simp
    · exact digits_zeros 1
    · exact (digits_zeros _).append hdigits
    · simp [chars, text_number, hne]
    · have hexp : e + 1 - ds.length =
          -((List.replicate (-e - 1).toNat '0' ++ ds).length : Int) := by
        rw [List.length_append, List.length_replicate]
        omega
      have hnat : natOfDigits (['0'] ++ (List.replicate (-e - 1).toNat '0' ++ ds)) =
          natOfDigits ds := by
        rw [← List.append_assoc, natOfDigits_append]
        simp [natOfDigits_zeros (_ + 1), ← List.replicate_succ]
      simp only [decimal, value, hnat, hexp, Option.getD_none, add_zero]
  · split
    · -- All digits stand in front of the point, and some zeros behind them.
      refine ⟨⟨ds ++ List.replicate (e.toNat + 1 - ds.length) '0', [], none⟩, ⟨?_, ?_, ?_⟩, ?_, ?_⟩
      · simp [hne]
      · exact hdigits.append (digits_zeros _)
      · simp [Digits]
      · simp [chars, text_number]
      · have hexp : e + 1 - ds.length = (e.toNat + 1 - ds.length : Nat) := by omega
        simp [decimal, value, hexp, natOfDigits_append, natOfDigits_zeros]
    · have hdrop : ds.drop (e.toNat + 1) ≠ [] := by
        rw [Ne, List.drop_eq_nil_iff]
        omega
      refine ⟨⟨ds.take (e.toNat + 1), ds.drop (e.toNat + 1), none⟩, ⟨?_, ?_, ?_⟩, ?_, ?_⟩
      · simp [hne]
      · exact hdigits.take _
      · exact hdigits.drop _
      · simp [chars, text_number, hdrop]
      · have hexp : e + 1 - ds.length = -((ds.drop (e.toNat + 1)).length : Int) := by
          rw [List.length_drop]
          omega
        simp only [decimal, value, List.take_append_drop, hexp, Option.getD_none, add_zero]

theorem exists_scientific :
    ∃ x : Numeral, x.Writes (scientific ds e) (natOfDigits ds * 10 ^ (e + 1 - ds.length)) := by
  refine ⟨⟨ds.take 1, ds.drop 1, some e⟩, ⟨?_, hdigits.take 1, hdigits.drop 1⟩, ?_, ?_⟩
  · simp [hne]
  · have hdrop : ds.drop 1 = [] ↔ ds.length ≤ 1 := List.drop_eq_nil_iff
    simp only [chars, text_number, hdrop, scientific]
    split <;> simp
  · have hpos := List.length_pos_iff.mpr hne
    have hexp : -((ds.drop 1).length : Int) + e = e + 1 - ds.length := by
      rw [List.length_drop]
      omega
    simp only [decimal, value, List.take_append_drop, Option.getD_some, hexp]

end

end Numeral

/-- Digits fall into those up to the last one that is not zero, and zeros. -/
theorem exists_zeros (cs : List Char) :
    ∃ k, cs = (cs.reverse.dropWhile (· == '0')).reverse ++ List.replicate k '0' := by
  have hzeros : cs.reverse.takeWhile (· == '0') =
      List.replicate (cs.reverse.takeWhile (· == '0')).length '0' := by
    rw [List.eq_replicate_iff]
    exact ⟨rfl, fun c hc => by simpa using List.mem_takeWhile_imp hc⟩
  have hsplit := congrArg List.reverse
    (List.takeWhile_append_dropWhile (p := (· == '0')) (l := cs.reverse))
  rw [List.reverse_append, List.reverse_reverse, hzeros, List.reverse_replicate] at hsplit
  exact ⟨_, hsplit.symm⟩

theorem significant_spec (d : Decimal) :
    (significant d).1 ≠ [] ∧ Digits (significant d).1 ∧
      natOfDigits (significant d).1 * 10 ^ ((significant d).2 + 1 - (significant d).1.length) =
        d.value := by
  unfold significant
  by_cases hzero : d.digits = 0
  · rw [if_pos hzero]
    refine ⟨by simp, digits_zeros 1, ?_⟩
    simp [value, hzero, natOfDigits, digitValue]
  · obtain ⟨k, hk⟩ := exists_zeros (Nat.toDigits 10 d.digits)
    have hdigits := digits_toDigits d.digits
    have hnat := natOfDigits_toDigits d.digits
    rw [if_neg hzero]
    dsimp only
    generalize Nat.toDigits 10 d.digits = cs at hk hdigits hnat ⊢
    generalize (cs.reverse.dropWhile (· == '0')).reverse = ds at hk ⊢
    subst hk
    rw [natOfDigits_append, natOfDigits_zeros, List.length_replicate, Nat.add_zero] at hnat
    refine ⟨?_, ?_, ?_⟩
    · rintro rfl
      exact hzero (by rw [← hnat]; simp [natOfDigits])
    · exact fun c hc => hdigits c (List.mem_append_left _ hc)
    · have hexp : d.exponent + (ds ++ List.replicate k '0').length - 1 + 1 - ds.length =
          k + d.exponent := by
        rw [List.length_append, List.length_replicate]
        omega
      rw [value, ← hnat, hexp, zpow_add₀ (by norm_num), zpow_natCast]
      push_cast
      ring

/-- The text of a decimal is a numeral for the same number. -/
theorem exists_numeral (d : Decimal) :
    ∃ x : Numeral, x.Writes (d.text Layout.display) d.value := by
  obtain ⟨hne, hdigits, hvalue⟩ := significant_spec d
  rw [← hvalue, text]
  dsimp only
  split
  · exact Numeral.exists_positional hne hdigits _
  · exact Numeral.exists_scientific hne hdigits _

theorem value_eq_of_text_eq {d d' : Decimal}
    (h : d.text Layout.display = d'.text Layout.display) : d.value = d'.value := by
  obtain ⟨x, hx⟩ := d.exists_numeral
  obtain ⟨x', hx'⟩ := d'.exists_numeral
  have hread := Numeral.read?_chars hx.regular
  rw [← hx.chars, h, hx'.chars, Numeral.read?_chars hx'.regular] at hread
  rw [← hx.value, ← hx'.value, Option.some.inj hread]

namespace Double
open Float.Model UnpackedFloat

/-- The bits of a double, given by its sign and the rest of them. -/
def bits : Double → Nat
  | finite negative n => (if negative then 2 ^ 63 else 0) + n
  | infinite negative => (if negative then 2 ^ 63 else 0) + 2047 * 2 ^ 52
  | nan => 2047 * 2 ^ 52 + 2 ^ 51

theorem toNat_toBits_of_nan {x : Float} (h : 2047 * 2 ^ 52 < x.toBits.toNat % 2 ^ 63) :
    x.toBits.toNat = bits nan := by
  have hlt : x.toBits.toNat < 2 ^ 64 := x.toBits.toNat_lt
  have hnan : x.toBits.toBitVec = packedNaN Format.binary64 := by
    apply x.toModel.valid.eq_packedNaN
    · apply BitVec.eq_of_toNat_eq
      change x.toBits.toNat >>> 52 % 2 ^ 11 = 2047
      rw [Nat.shiftRight_eq_div_pow]
      omega
    · intro hzero
      have hmantissa : x.toBits.toNat % 2 ^ 52 = 0 := congrArg BitVec.toNat hzero
      omega
  exact congrArg BitVec.toNat hnan

theorem bits_ofFloat (x : Float) : bits (ofFloat x) = x.toBits.toNat := by
  have hlt : x.toBits.toNat < 2 ^ 64 := x.toBits.toNat_lt
  have hsign : signWeight = 2 ^ 63 := rfl
  have hinf : infinityBits = 2047 * 2 ^ 52 := rfl
  have hsplit : (if decide (2 ^ 63 ≤ x.toBits.toNat) then 2 ^ 63 else 0) +
      x.toBits.toNat % 2 ^ 63 = x.toBits.toNat := by
    by_cases hle : 2 ^ 63 ≤ x.toBits.toNat
    · rw [if_pos (decide_eq_true hle)]
      omega
    · rw [if_neg (by simpa using hle)]
      omega
  unfold ofFloat
  simp only [hsign, hinf]
  split
  · exact hsplit
  · split
    · rename_i heq
      rw [heq] at hsplit
      exact hsplit
    · exact (toNat_toBits_of_nan (by omega)).symm

/-- A double is determined by its sign and the rest of its bits, NaN included, of which
there is one only. -/
theorem ofFloat_injective {x y : Float} (h : ofFloat x = ofFloat y) : x = y := by
  apply Value.float_eq_of_toBits_eq
  apply UInt64.toNat_inj.mp
  rw [← bits_ofFloat, ← bits_ofFloat, h]

/-- Whether a minus sign is written. -/
def negative : Double → Bool
  | finite s _ => s
  | infinite s => s
  | nan => false

/-- What is written behind the sign. -/
def unsigned : Double → String
  | finite _ n => (shortest n).text Layout.display
  | infinite _ => Layout.display.infinity
  | nan => Layout.display.nan

/-- The characters with which that can begin. -/
def Initial : Double → Char → Prop
  | finite _ _, c => c.isDigit = true
  | infinite _, c => c = 'I'
  | nan, c => c = 'N'

theorem write_eq (x : Float) : Layout.display.write x =
    Layout.sign (ofFloat x).negative ++ (ofFloat x).unsigned := by
  unfold Layout.write
  cases ofFloat x with
  | finite s n => rfl
  | infinite s => rfl
  | nan => simp [negative, unsigned, Layout.sign]

theorem exists_initial (d : Double) : ∃ c cs, d.unsigned.toList = c :: cs ∧ d.Initial c := by
  cases d with
  | finite s n =>
      obtain ⟨x, hx⟩ := (shortest n).exists_numeral
      obtain ⟨c, cs, hchars, hc⟩ := hx.regular.exists_first
      exact ⟨c, cs, hx.chars.trans hchars, hc⟩
  | infinite s => exact ⟨'I', _, String.toList_ofList, rfl⟩
  | nan => exact ⟨'N', _, String.toList_ofList, rfl⟩

theorem Initial.ne_minus {d : Double} {c : Char} (h : d.Initial c) : c ≠ '-' := by
  rintro rfl
  cases d with
  | finite s n => cases h
  | infinite s => cases h
  | nan => cases h

theorem Initial.not_lower {d : Double} {c : Char} (h : d.Initial c) : c.isLower = false := by
  cases d with
  | finite s n =>
      rw [← Bool.not_eq_true]
      intro hlower
      have halpha : c.isAlpha = true := (Bool.or_eq_true _ _).mpr (.inr hlower)
      have hletter : Piece.beginsWord c = true := by simp [Piece.beginsWord, halpha]
      exact ((Piece.beginsWord_iff c).mp hletter).not_digit ((Piece.isDigit_iff c).mp h)
  | infinite s => rw [show c = 'I' from h]; rfl
  | nan => rw [show c = 'N' from h]; rfl

theorem eq_of_unsigned_eq {d d' : Double} (hsign : d.negative = d'.negative)
    (h : d.unsigned = d'.unsigned) : d = d' := by
  obtain ⟨c, cs, hd, hc⟩ := d.exists_initial
  obtain ⟨c', cs', hd', hc'⟩ := d'.exists_initial
  rw [h, hd', List.cons.injEq] at hd
  obtain rfl := hd.1
  cases d with
  | finite s n =>
      cases d' with
      | finite s' n' =>
          have hn : n = n' := readsBack_unique (value_eq_of_text_eq h) (shortest_readsBack n)
            (shortest_readsBack n')
          rw [hn, show s = s' from hsign]
      | infinite s' => obtain rfl : c' = 'I' := hc'; cases hc
      | nan => obtain rfl : c' = 'N' := hc'; cases hc
  | infinite s =>
      obtain rfl : c' = 'I' := hc
      cases d' with
      | infinite s' => rw [show s = s' from hsign]
      | finite s' n' => cases hc'
      | nan => cases hc'
  | nan =>
      obtain rfl : c' = 'N' := hc
      cases d' with
      | nan => rfl
      | finite s' n' => cases hc'
      | infinite s' => cases hc'

theorem isAlphanum_or_mem {d : Double} {c : Char} (h : c ∈ d.unsigned.toList) :
    c.isAlphanum = true ∨ c ∈ ['.', '+', '-'] := by
  cases d with
  | finite s n =>
      obtain ⟨x, hx⟩ := (shortest n).exists_numeral
      exact hx.regular.isAlphanum_or_mem (hx.chars ▸ h)
  | infinite s =>
      have hall : "Infinity".toList.all Char.isAlphanum = true := by decide
      exact .inl (List.all_eq_true.mp hall c h)
  | nan =>
      have hall : "NaN".toList.all Char.isAlphanum = true := by decide
      exact .inl (List.all_eq_true.mp hall c h)

end Double

namespace Layout

theorem toList_sign (s : Bool) : (sign s).toList = if s then ['-'] else [] := by
  cases s <;> rfl

/-- The text of a number tells which double it is. -/
theorem write_injective {x y : Float} (h : display.write x = display.write y) : x = y := by
  obtain ⟨c, cs, hx, hc⟩ := (Double.ofFloat x).exists_initial
  obtain ⟨d, ds, hy, hd⟩ := (Double.ofFloat y).exists_initial
  rw [Double.write_eq, Double.write_eq, ← String.toList_inj, String.toList_append,
    String.toList_append, toList_sign, toList_sign] at h
  have hsign : (Double.ofFloat x).negative = (Double.ofFloat y).negative := by
    rw [hx, hy] at h
    cases hnx : (Double.ofFloat x).negative with
    | false =>
        cases hny : (Double.ofFloat y).negative with
        | false => rfl
        | true =>
            rw [hnx, hny] at h
            exact absurd (List.cons.inj h).1 hc.ne_minus
    | true =>
        cases hny : (Double.ofFloat y).negative with
        | true => rfl
        | false =>
            rw [hnx, hny] at h
            exact absurd (List.cons.inj h).1.symm hd.ne_minus
  apply Double.ofFloat_injective
  apply Double.eq_of_unsigned_eq hsign
  rw [hsign, List.append_cancel_left_eq] at h
  exact String.toList_inj.mp h

/-- No blanks or brackets stand in the text of a number. -/
theorem isAlphanum_or_mem_write {x : Float} {c : Char} (h : c ∈ (display.write x).toList) :
    c.isAlphanum = true ∨ c ∈ ['.', '+', '-'] := by
  rw [Double.write_eq, String.toList_append, toList_sign, List.mem_append] at h
  rcases h with hsign | hunsigned
  · split at hsign
    · exact .inr (by simp [List.mem_singleton.mp hsign])
    · cases hsign
  · exact Double.isAlphanum_or_mem hunsigned

theorem exists_write (x : Float) :
    ∃ c cs, (display.write x).toList = c :: cs ∧ c.isLower = false := by
  obtain ⟨c, cs, hx, hc⟩ := (Double.ofFloat x).exists_initial
  rw [Double.write_eq, String.toList_append, toList_sign, hx]
  split
  · exact ⟨'-', c :: cs, rfl, rfl⟩
  · exact ⟨c, cs, rfl, hc.not_lower⟩

end Layout

end Lox.Decimal
