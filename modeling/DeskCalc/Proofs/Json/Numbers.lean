import DeskCalc.Json.Reader
import DeskCalc.Json.Writer
import DeskCalc.Proofs.Number.Rounding

/-!
# Numbers in a document

Whatever number is written, one number is read back: an integer is read as itself, and the text of a
double has a point or an exponent, so that it is read as a double. What follows a number must not
begin with a character that would continue it.
-/

namespace DeskCalc

namespace Text

/-- The text is a run of plain digits, at least one. -/
def IsDigitRun (ds : Text) : Prop := ds ≠ [] ∧ ∀ c ∈ ds, Numeral.isPlainDigit c = true

section ofNat

private theorem isPlainDigit_of_isDigit {c : Char} (h : c.isDigit = true) :
    Numeral.isPlainDigit c = true := by
  simp only [Char.isDigit, Bool.and_eq_true, decide_eq_true_eq] at h
  simp only [Numeral.isPlainDigit, decide_eq_true_eq]
  exact h

theorem isDigitRun_ofNat (n : Nat) : IsDigitRun (ofNat n) :=
  ⟨Nat.toDigits_ne_nil, fun _ hc =>
    isPlainDigit_of_isDigit (Nat.isDigit_of_mem_toDigits (by decide) (by decide) hc)⟩

/-- Only zero is written with a zero in front. -/
theorem head?_ofNat {n : Nat} (hn : 0 < n) : (ofNat n).head? ≠ some '0' := by
  induction n using Nat.strongRecOn with
  | ind n ih =>
    rw [ofNat, Nat.toDigits_eq_if (by decide)]
    split
    · next hlt =>
      have hall : ∀ k < 10, 0 < k → k.digitChar ≠ '0' := by decide
      simpa using hall n hlt hn
    · next hle =>
      have hquotient := ih (n / 10) (by omega) (by omega)
      have hne : Nat.toDigits 10 (n / 10) ≠ [] := (isDigitRun_ofNat _).1
      rwa [List.head?_append_of_ne_nil _ hne]

theorem ofDigits_ofNat (n : Nat) : Numeral.ofDigits 10 (ofNat n) = n := by
  have hfold : ∀ (ds : Text) (k : Nat), (∀ c ∈ ds, Numeral.isPlainDigit c = true) →
      ds.foldl (fun n c => n * 10 + Numeral.digitValue c) k = Nat.ofDigitChars 10 ds k := by
    intro ds
    induction ds with
    | nil => simp
    | cons c cs ih =>
      intro k h
      have hc : Numeral.digitValue c = c.toNat - '0'.toNat := by
        rw [Numeral.digitValue, if_pos (h c (by simp))]
      rw [List.foldl_cons, Nat.ofDigitChars_cons, hc, Nat.mul_comm k 10]
      exact ih _ fun d hd => h d (by simp [hd])
  rw [Numeral.ofDigits, hfold _ _ (isDigitRun_ofNat n).2]
  exact Nat.ofDigitChars_ten_toDigits

end ofNat

section trimRight

theorem trimRight_cons {x c : Char} (hc : c ≠ x) (cs : Text) :
    trimRight x (c :: cs) = c :: trimRight x cs := by
  rw [trimRight, trimRight, List.reverse_cons, List.dropWhile_append]
  split
  · next h =>
    rw [List.isEmpty_iff.mp h]
    simp [hc]
  · simp

/-- Only such characters at the end are left out. -/
theorem trimRight_append (c : Char) (t : Text) : ∃ m, t = trimRight c t ++ List.replicate m c := by
  refine ⟨(t.reverse.takeWhile (· == c)).length, ?_⟩
  have hsplit := List.takeWhile_append_dropWhile (p := (· == c)) (l := t.reverse)
  have hall : t.reverse.takeWhile (· == c) =
      List.replicate (t.reverse.takeWhile (· == c)).length c :=
    List.eq_replicate_of_mem fun d hd => by
      simpa using List.all_eq_true.mp List.all_takeWhile d hd
  rw [trimRight, ← List.reverse_replicate, ← hall, ← List.reverse_append, hsplit,
    List.reverse_reverse]

theorem mem_trimRight {x c : Char} {t : Text} (h : c ∈ trimRight x t) : c ∈ t := by
  rw [trimRight, List.mem_reverse] at h
  exact List.mem_reverse.mp ((List.dropWhile_sublist _).mem h)

theorem trimRight_append_replicate (c : Char) (t : Text) (n : Nat) :
    trimRight c (t ++ List.replicate n c) = trimRight c t := by
  rw [trimRight, trimRight, List.reverse_append, List.reverse_replicate,
    List.dropWhile_append_of_pos fun d hd => by simp [List.eq_of_mem_replicate hd]]

theorem getLast?_trimRight (c : Char) (t : Text) : (trimRight c t).getLast? ≠ some c := by
  rw [trimRight, List.getLast?_reverse]
  intro h
  have hlast := List.head?_dropWhile_not (· == c) t.reverse
  rw [h] at hlast
  simp at hlast

end trimRight

end Text

namespace Json

open Text

/-- The text does not continue a number. -/
def EndsNumber (t : Text) : Prop :=
  ∀ c, t.head? = some c → Numeral.isPlainDigit c = false ∧ c ≠ '.' ∧ c ≠ 'e' ∧ c ≠ 'E'

theorem endsNumber_nil : EndsNumber [] := by simp [EndsNumber]

section digits

variable {ds r : Text} (hr : ∀ c, r.head? = some c → Numeral.isPlainDigit c = false)
include hr

private theorem takeWhile_digits (hds : IsDigitRun ds) :
    (ds ++ r).takeWhile Numeral.isPlainDigit = ds := by
  rw [List.takeWhile_append_of_pos hds.2]
  cases r with
  | nil => simp
  | cons c cs => simp [hr c rfl]

private theorem dropWhile_digits (hds : IsDigitRun ds) :
    (ds ++ r).dropWhile Numeral.isPlainDigit = r := by
  rw [List.dropWhile_append_of_pos hds.2]
  cases r with
  | nil => rfl
  | cons c cs => simp [hr c rfl]

private theorem readWhole?_append (hds : IsDigitRun ds) (hzero : ds = ['0'] ∨ ds.head? ≠ some '0') :
    readWhole? (ds ++ r) = some (ds, r) := by
  rcases hzero with rfl | hzero
  · rfl
  · have htake := takeWhile_digits hr hds
    have hdrop := dropWhile_digits hr hds
    obtain ⟨c, cs, rfl⟩ := List.exists_cons_of_ne_nil hds.1
    have hc : c ≠ '0' := by simpa using hzero
    rw [List.cons_append] at htake hdrop ⊢
    unfold readWhole?
    split
    · next heq => exact absurd (List.cons.inj heq).1 hc
    · rw [htake, hdrop]

end digits

section decimals

/-- A point and the digits after it, if there are any. -/
def fractionText : Option Text → Text
  | none => []
  | some ds => '.' :: ds

/-- An `e`, a sign and the digits of a power of ten, if there is one. -/
def powerText : Option (Char × Text) → Text
  | none => []
  | some (s, ds) => 'e' :: s :: ds

/-- The number that the sign and the digits of a power of ten stand for. -/
def powerValue (p : Char × Text) : Int :=
  if p.1 = '-' then -(Numeral.ofDigits 10 p.2 : Int) else Numeral.ofDigits 10 p.2

variable {r : Text} {fraction : Option Text} {power : Option (Char × Text)}

private theorem read_fraction (hfraction : ∀ ds ∈ fraction, IsDigitRun ds)
    (hr : ∀ c, r.head? = some c → Numeral.isPlainDigit c = false ∧ c ≠ '.') :
    ((readFraction (fractionText fraction ++ r)).map fun (d, r) => (some d, r)).getD
      (none, fractionText fraction ++ r) = (fraction, r) := by
  cases fraction with
  | none =>
    have hnone : readFraction r = none := by
      unfold readFraction
      split
      · exact absurd rfl (hr '.' rfl).2
      · rfl
    rw [fractionText, List.nil_append, hnone]
    rfl
  | some ds =>
    have hds : IsDigitRun ds := hfraction ds rfl
    have htake := takeWhile_digits (fun c hc => (hr c hc).1) hds
    have hdrop := dropWhile_digits (fun c hc => (hr c hc).1) hds
    have hsome : readFraction ('.' :: (ds ++ r)) = some (ds, r) := by
      simp only [readFraction, htake, hdrop]
      split
      · exact absurd rfl hds.1
      · rfl
    rw [fractionText, List.cons_append, hsome]
    rfl

private theorem read_power (hpower : ∀ p ∈ power, (p.1 = '+' ∨ p.1 = '-') ∧ IsDigitRun p.2)
    (hr : EndsNumber r) :
    ((readPower (powerText power ++ r)).map fun (e, r) => (some e, r)).getD
      (none, powerText power ++ r) = (power.map powerValue, r) := by
  cases power with
  | none =>
    have hnone : readPower r = none := by
      unfold readPower
      split
      · next mark _ =>
        obtain ⟨-, -, he, hE⟩ := hr mark rfl
        rw [if_neg (not_or.mpr ⟨he, hE⟩)]
      · rfl
    rw [powerText, List.nil_append, hnone]
    rfl
  | some p =>
    obtain ⟨s, ds⟩ := p
    obtain ⟨hs, hds⟩ := hpower (s, ds) rfl
    have htake := takeWhile_digits (fun c hc => (hr c hc).1) hds
    have hdrop := dropWhile_digits (fun c hc => (hr c hc).1) hds
    have hsome : readPower ('e' :: s :: (ds ++ r)) = some (powerValue (s, ds), r) := by
      rcases hs with rfl | rfl <;>
      · simp only [readPower, true_or, if_true, htake, hdrop]
        split
        · exact absurd rfl hds.1
        · rfl
    rw [powerText, List.cons_append, List.cons_append, hsome]
    rfl

/-- A number with a point or a power of ten, or both. -/
structure Decimal where
  whole : Text
  fraction : Option Text
  power : Option (Char × Text)
  isWhole : IsDigitRun whole
  zero : whole = ['0'] ∨ whole.head? ≠ some '0'
  isFraction : ∀ ds ∈ fraction, IsDigitRun ds
  isPower : ∀ p ∈ power, (p.1 = '+' ∨ p.1 = '-') ∧ IsDigitRun p.2
  inexact : fraction.isSome ∨ power.isSome

namespace Decimal

def text (d : Decimal) : Text := d.whole ++ (fractionText d.fraction ++ powerText d.power)

def value (negative : Bool) (d : Decimal) : Double :=
  Double.ofDecimal negative (Numeral.ofDigits 10 (d.whole ++ d.fraction.getD []))
    ((d.power.map powerValue).getD 0 - (d.fraction.getD []).length)

def rational (d : Decimal) : ℚ :=
  Numeral.ofDigits 10 (d.whole ++ d.fraction.getD []) *
    10 ^ ((d.power.map powerValue).getD 0 - (d.fraction.getD []).length)

private theorem readUnsigned_text (d : Decimal) (negative : Bool) (hr : EndsNumber r) :
    readUnsigned negative (d.text ++ r) = .ok (number (d.value negative), r) := by
  have hpower : ∀ c, (powerText d.power ++ r).head? = some c →
      Numeral.isPlainDigit c = false ∧ c ≠ '.' := by
    intro c hc
    cases hp : d.power with
    | none =>
      rw [hp] at hc
      exact ⟨(hr c hc).1, (hr c hc).2.1⟩
    | some p =>
      rw [hp] at hc
      obtain rfl : 'e' = c := Option.some.inj hc
      decide
  have hfraction : ∀ c, (fractionText d.fraction ++ (powerText d.power ++ r)).head? = some c →
      Numeral.isPlainDigit c = false := by
    intro c hc
    cases hf : d.fraction with
    | none =>
      rw [hf] at hc
      exact (hpower c hc).1
    | some ds =>
      rw [hf] at hc
      obtain rfl : '.' = c := Option.some.inj hc
      decide
  have hinexact : ¬(d.fraction.isNone ∧ (d.power.map powerValue).isNone) := by
    rintro ⟨hf, hp⟩
    rcases d.inexact with h | h
    · simp_all
    · simp_all
  rw [text, List.append_assoc, List.append_assoc]
  simp only [readUnsigned, readWhole?_append hfraction d.isWhole d.zero,
    read_fraction d.isFraction hpower, read_power d.isPower hr]
  rw [if_neg hinexact]
  rfl

end Decimal

end decimals

section integers

variable {r : Text}

private theorem readUnsigned_ofNat {n : Nat} (hn : (Text.ofNat n).length ≤ Text.digitLimit)
    (negative : Bool) (hr : EndsNumber r) :
    readUnsigned negative (Text.ofNat n ++ r) =
      .ok (integer (if negative then -(n : Int) else n), r) := by
  have hzero : Text.ofNat n = ['0'] ∨ (Text.ofNat n).head? ≠ some '0' := by
    rcases Nat.eq_zero_or_pos n with rfl | hn
    · exact .inl rfl
    · exact .inr (head?_ofNat hn)
  have hwhole := readWhole?_append (fun c hc => (hr c hc).1) (isDigitRun_ofNat n) hzero
  have hfraction := @read_fraction r none (by simp) fun c hc => ⟨(hr c hc).1, (hr c hc).2.1⟩
  have hpower := @read_power r none (by simp) hr
  rw [fractionText, List.nil_append] at hfraction
  rw [powerText, List.nil_append] at hpower
  simp only [readUnsigned, hwhole, hfraction, hpower]
  simp [ofDigits_ofNat, hn]

theorem words_eq : words =
    [(['n', 'u', 'l', 'l'], .null), (['t', 'r', 'u', 'e'], .bool true),
      (['f', 'a', 'l', 's', 'e'], .bool false), (['N', 'a', 'N'], .number .notANumber),
      (['I', 'n', 'f', 'i', 'n', 'i', 't', 'y'], .number (.infinite false)),
      (['-', 'I', 'n', 'f', 'i', 'n', 'i', 't', 'y'], .number (.infinite true))] := rfl

/-- A word begins with a letter of its own, or with a minus sign and such a letter. -/
theorem begins_of_word {w t : Text} {x : Json} (hw : (w, x) ∈ words)
    (h : w.isPrefixOf t = true) :
    (∃ c u, t = c :: u ∧ c ∈ ['n', 't', 'f', 'N', 'I']) ∨ ∃ u, t = '-' :: 'I' :: u := by
  obtain ⟨u, rfl⟩ := List.isPrefixOf_iff_prefix.mp h
  simp only [words_eq, List.mem_cons, Prod.mk.injEq, List.not_mem_nil, or_false] at hw
  rcases hw with ⟨rfl, -⟩ | ⟨rfl, -⟩ | ⟨rfl, -⟩ | ⟨rfl, -⟩ | ⟨rfl, -⟩ | ⟨rfl, -⟩
  · exact .inl ⟨'n', _, rfl, by decide⟩
  · exact .inl ⟨'t', _, rfl, by decide⟩
  · exact .inl ⟨'f', _, rfl, by decide⟩
  · exact .inl ⟨'N', _, rfl, by decide⟩
  · exact .inl ⟨'I', _, rfl, by decide⟩
  · exact .inr ⟨_, rfl⟩

private theorem readSimple_digit {c : Char} (hc : Numeral.isPlainDigit c = true) (t : Text) :
    readSimple (c :: t) = readUnsigned false (c :: t) ∧
      readSimple ('-' :: c :: t) = readUnsigned true (c :: t) := by
  have hall : ∀ d ∈ ['n', 't', 'f', 'N', 'I', '-'], Numeral.isPlainDigit d = false := by decide
  have hne : ∀ d ∈ ['n', 't', 'f', 'N', 'I', '-'], d ≠ c := by
    rintro d hd rfl
    simp [hall d hd] at hc
  constructor
  · unfold readSimple
    split
    · next w x hfind =>
      rcases begins_of_word (List.mem_of_find?_eq_some hfind) (List.find?_some hfind :) with
        ⟨d, u, heq, hd⟩ | ⟨u, heq⟩
      · exact absurd (List.cons.inj heq).1.symm (hne d (List.mem_append_left ['-'] hd))
      · exact absurd (List.cons.inj heq).1.symm (hne '-' (by decide))
    · split
      · next heq => exact absurd (List.cons.inj heq).1.symm (hne '-' (by decide))
      · rfl
  · unfold readSimple
    split
    · next w x hfind =>
      rcases begins_of_word (List.mem_of_find?_eq_some hfind) (List.find?_some hfind :) with
        ⟨d, u, heq, hd⟩ | ⟨u, heq⟩
      · obtain rfl : '-' = d := (List.cons.inj heq).1
        exact absurd hd (by decide)
      · exact absurd (List.cons.inj (List.cons.inj heq).2).1.symm (hne 'I' (by decide))
    · rfl

private theorem readSimple_digits {ds : Text} (hds : IsDigitRun ds) (t : Text) :
    readSimple (ds ++ t) = readUnsigned false (ds ++ t) ∧
      readSimple ('-' :: (ds ++ t)) = readUnsigned true (ds ++ t) := by
  obtain ⟨c, cs, rfl⟩ := List.exists_cons_of_ne_nil hds.1
  exact readSimple_digit (hds.2 c List.mem_cons_self) (cs ++ t)

theorem readSimple_ofInt {n : Int} (hn : (Text.ofNat n.natAbs).length ≤ Text.digitLimit)
    (hr : EndsNumber r) : readSimple (Text.ofInt n ++ r) = .ok (integer n, r) := by
  cases n with
  | ofNat n =>
    rw [Text.ofInt, (readSimple_digits (isDigitRun_ofNat n) r).1]
    exact readUnsigned_ofNat hn false hr
  | negSucc n =>
    rw [Text.ofInt, List.cons_append, (readSimple_digits (isDigitRun_ofNat _) r).2]
    exact readUnsigned_ofNat hn true hr

end integers

end Json

namespace Double

open Json Text

section shortest

private theorem ratio_pos {m : Nat} (hm : 0 < m) (e : Int) :
    0 < (ratio m e).1 ∧ 0 < (ratio m e).2 := by
  cases e with
  | ofNat e => exact ⟨by simpa [ratio, Nat.shiftLeft_eq] using hm, Nat.one_pos⟩
  | negSucc e => exact ⟨hm, Nat.two_pow_pos _⟩

private theorem ofRatio_ne_zero {n d : Nat} (hn : 0 < n) (hd : 0 < d) :
    ofRatio false n d ≠ .finite false 0 0 := by
  intro h
  rw [ofRatio, if_neg hn.ne'] at h
  dsimp only at h
  split at h
  · simp at h
  · simp only [finite.injEq, true_and] at h
    obtain ⟨hm, he⟩ := h
    have hexponent : binaryExponent n d = 52 := by omega
    have hlow := (binaryExponent_spec hn hd).1
    have hone : (1 : ℚ) ≤ n / d := le_trans (by rw [hexponent]; norm_num) hlow
    have hle : d ≤ n := by
      rw [one_le_div (by exact_mod_cast hd)] at hone
      exact_mod_cast hone
    have hclose := (divNearest_close n d hd).2
    have hround : divNearest n d = 0 := by
      rw [he] at hm
      simpa [divNearestScaled] using hm
    rw [hround] at hclose
    omega

private theorem shortestDecimal_pos {m : Nat} (hm : 0 < m) (e : Int) :
    0 < (shortestDecimal m e).1 := by
  obtain ⟨hn, hd⟩ := ratio_pos hm e
  unfold shortestDecimal
  dsimp only
  cases hfound : (List.range 17).findSome? _ with
  | none => exact hm
  | some found =>
    obtain ⟨i, -, hi⟩ := List.exists_of_findSome?_eq_some hfound
    simp only [Option.map_eq_some_iff] at hi
    obtain ⟨digits, hdigits, rfl⟩ := hi
    have hreads := List.find?_some hdigits
    by_contra hzero
    obtain rfl : digits = 0 := Nat.eq_zero_of_not_pos hzero
    have hratio : ∀ k, (decimalRatio 0 k).1 = 0 := by
      intro k
      cases k <;> simp [decimalRatio]
    simp only [beq_iff_eq, ofRatio, hratio, if_true] at hreads
    exact ofRatio_ne_zero hn hd hreads.symm

end shortest

section layout

variable {digits : Text}

private theorem isDigitRun_singleton {c : Char} (hc : Numeral.isPlainDigit c = true) :
    IsDigitRun [c] :=
  ⟨by simp, by simpa using hc⟩

private theorem isDigitRun_zeros_append (n : Nat) (h : IsDigitRun digits) :
    IsDigitRun (List.replicate n '0' ++ digits) := by
  refine ⟨by simp [h.1], fun c hc => ?_⟩
  rcases List.mem_append.mp hc with hc | hc
  · rw [(List.mem_replicate.mp hc).2]
    decide
  · exact h.2 c hc

theorem isDigitRun_take_zeros {k : Nat} (hk : 0 < k) (n : Nat) (h : IsDigitRun digits) :
    IsDigitRun (digits.take k ++ List.replicate n '0') := by
  refine ⟨by simp [h.1, hk.ne'], fun c hc => ?_⟩
  rcases List.mem_append.mp hc with hc | hc
  · exact h.2 c (List.mem_of_mem_take hc)
  · rw [(List.mem_replicate.mp hc).2]
    decide

private theorem exponentText_eq (e : Int) :
    ∃ s ds, exponentText e = s :: ds ∧ (s = '+' ∨ s = '-') ∧ IsDigitRun ds := by
  have hrun := isDigitRun_ofNat e.natAbs
  refine ⟨_, _, rfl, ?_, ?_⟩
  · split <;> simp
  · split
    · exact isDigitRun_zeros_append 1 hrun
    · exact hrun

private theorem ofDigits_zeros_append (n : Nat) (ds : Text) :
    Numeral.ofDigits 10 (List.replicate n '0' ++ ds) = Numeral.ofDigits 10 ds := by
  induction n with
  | zero => rfl
  | succ n ih => exact ih

theorem ofDigits_append_zeros (ds : Text) (n : Nat) :
    Numeral.ofDigits 10 (ds ++ List.replicate n '0') = Numeral.ofDigits 10 ds * 10 ^ n := by
  induction n with
  | zero => simp
  | succ n ih =>
    rw [List.replicate_succ', ← List.append_assoc, Numeral.ofDigits, List.foldl_append,
      List.foldl_cons, List.foldl_nil, ← Numeral.ofDigits, ih, Nat.pow_succ, Nat.mul_assoc]
    exact Nat.add_zero _

private theorem exponentText_value {e : Int} {s : Char} {ds : Text} (h : exponentText e = s :: ds) :
    powerValue (s, ds) = e := by
  have hdigits : Numeral.ofDigits 10 ds = e.natAbs := by
    rw [← (List.cons.inj h).2]
    split
    · exact (ofDigits_zeros_append 1 _).trans (ofDigits_ofNat _)
    · exact ofDigits_ofNat _
  have hsign := (List.cons.inj h).1
  rw [powerValue, hdigits, ← hsign]
  dsimp only
  by_cases he : e < 0
  · rw [if_pos he, if_pos rfl]
    omega
  · rw [if_neg he, if_neg (by decide)]
    omega

/-- A decimal that stands for digits, the first of them at the given place. Unless the layout
keeps the point of a number without fraction, there are only zeros before the digits and
nothing after them. -/
structure StandsFor (layout : Layout) (d : Decimal) (digits : Text) (top : Int) : Prop where
  rational : d.rational = Numeral.ofDigits 10 digits * 10 ^ (top + 1 - digits.length)
  mantissa : layout.keepsPoint = false →
    ∃ n, d.whole ++ d.fraction.getD [] = List.replicate n '0' ++ digits

namespace Layout

variable {top : Int} (layout : Layout)

private theorem write_fraction (hdigits : IsDigitRun digits)
    (hfixed : layout.fixedFrom ≤ top ∧ top < layout.fixedTo) (hneg : top < 0) :
    ∃ d : Decimal, layout.write digits top = d.text ∧ StandsFor layout d digits top := by
  refine ⟨⟨['0'], some (List.replicate (-top - 1).toNat '0' ++ digits), none,
    isDigitRun_singleton (by decide), .inl rfl, by simpa using isDigitRun_zeros_append _ hdigits,
    by simp, by simp⟩, ?_, ?_, fun _ => ⟨(-top - 1).toNat + 1, rfl⟩⟩
  · rw [write, if_pos hfixed, if_pos hneg]
    simp [Decimal.text, fractionText, powerText]
  · have hzeros := ofDigits_zeros_append ((-top - 1).toNat + 1) digits
    have hplace : (0 : Int) - ((List.replicate (-top - 1).toNat '0' ++ digits).length : Nat) =
        top + 1 - (digits.length : Nat) := by
      rw [List.length_append, List.length_replicate]
      omega
    rw [List.replicate_succ, List.cons_append] at hzeros
    simp only [Decimal.rational, Option.getD_some, Option.map_none, Option.getD_none, hplace,
      List.singleton_append, hzeros]

private theorem write_positional (hdigits : IsDigitRun digits) (hzero : digits.head? ≠ some '0')
    (hfixed : layout.fixedFrom ≤ top ∧ top < layout.fixedTo) (hpos : 0 ≤ top) :
    (∃ n : Nat, layout.keepsPoint = false ∧ top + 1 - digits.length = n ∧
        layout.write digits top = digits ++ List.replicate n '0') ∨
      ∃ d : Decimal, layout.write digits top = d.text ∧ StandsFor layout d digits top := by
  obtain ⟨w, hw⟩ : ∃ w, top.toNat + 1 = w := ⟨_, rfl⟩
  have hwhole := isDigitRun_take_zeros (by omega : 0 < w) (w - digits.length) hdigits
  have hhead : (digits.take w ++ List.replicate (w - digits.length) '0').head? ≠ some '0' := by
    have hne : digits.take w ≠ [] := by
      simp only [ne_eq, List.take_eq_nil_iff, hdigits.1, or_false]
      omega
    rw [List.head?_append_of_ne_nil _ hne, List.head?_take, if_neg (by omega)]
    exact hzero
  rw [write, if_pos hfixed, if_neg (by omega)]
  dsimp only
  rw [hw]
  split
  · next hrest =>
    have hshort : digits.length ≤ w := by simpa using hrest
    obtain ⟨n, hn⟩ : ∃ n, w - digits.length = n := ⟨_, rfl⟩
    have hplace : top + 1 - (digits.length : Nat) = n := by omega
    rw [List.take_of_length_le hshort, hn] at hwhole hhead ⊢
    by_cases hpoint : layout.keepsPoint = true
    · refine .inr ⟨⟨_, some ['0'], none, hwhole, .inr hhead,
        by simpa using isDigitRun_singleton (by decide), by simp, by simp⟩, ?_,
        ?_, by simp [hpoint]⟩
      · simp [hpoint, Decimal.text, fractionText, powerText]
      · have hzeros := ofDigits_append_zeros digits (n + 1)
        have hone : (10 : ℚ) ^ ((0 : Int) - ((['0'] : Text).length : Nat)) = 10⁻¹ := by norm_num
        rw [List.replicate_succ', ← List.append_assoc] at hzeros
        simp only [Decimal.rational, Option.getD_some, Option.map_none, Option.getD_none, hzeros,
          hone, hplace, zpow_natCast]
        push_cast
        ring
    · rw [Bool.not_eq_true] at hpoint
      refine .inl ⟨n, hpoint, hplace, ?_⟩
      simp [hpoint]
  · next hrest =>
    have hlong : w < digits.length := by simpa using hrest
    have hfraction : IsDigitRun (digits.drop w) :=
      ⟨by simpa using hrest, fun c hc => hdigits.2 c (List.mem_of_mem_drop hc)⟩
    have hnone : w - digits.length = 0 := by omega
    refine .inr ⟨⟨_, some _, none, hwhole, .inr hhead, by simpa using hfraction, by simp, by simp⟩,
      ?_, ?_, fun _ => ⟨0, by simp [hnone]⟩⟩
    · simp [Decimal.text, fractionText, powerText]
    · have hplace :
          (0 : Int) - ((digits.drop w).length : Nat) = top + 1 - (digits.length : Nat) := by
        rw [List.length_drop]
        omega
      simp only [Decimal.rational, Option.getD_some, Option.map_none, Option.getD_none, hplace,
        hnone, List.replicate_zero, List.append_nil, List.take_append_drop]

private theorem write_power (hdigits : IsDigitRun digits) (hzero : digits.head? ≠ some '0')
    (hfixed : ¬(layout.fixedFrom ≤ top ∧ top < layout.fixedTo)) :
    ∃ d : Decimal, layout.write digits top = d.text ∧ StandsFor layout d digits top := by
  obtain ⟨c, cs, rfl⟩ := List.exists_cons_of_ne_nil hdigits.1
  obtain ⟨s, ds, hpower, hs, hds⟩ := exponentText_eq top
  have hone : IsDigitRun [c] := isDigitRun_singleton (hdigits.2 c List.mem_cons_self)
  have hhead : [c].head? ≠ some '0' := by simpa using hzero
  have hvalue := exponentText_value hpower
  rw [write, if_neg hfixed]
  by_cases hcs : cs = []
  · refine ⟨⟨[c], none, some (s, ds), hone, .inr hhead, by simp, by simpa using ⟨hs, hds⟩,
      by simp⟩, ?_, ?_, fun _ => ⟨0, by simp [hcs]⟩⟩
    · simp [hcs, hpower, Decimal.text, fractionText, powerText]
    · simp [Decimal.rational, hvalue, hcs]
  · have hrun : IsDigitRun cs := ⟨hcs, fun d hd => hdigits.2 d (List.mem_cons_of_mem c hd)⟩
    refine ⟨⟨[c], some cs, some (s, ds), hone, .inr hhead, by simpa using hrun,
      by simpa using ⟨hs, hds⟩, by simp⟩, ?_, ?_, fun _ => ⟨0, rfl⟩⟩
    · simp [hcs, hpower, Decimal.text, fractionText, powerText]
    · simp [Decimal.rational, hvalue]

/-- Laid out, digits make a decimal that stands for them, or an integer with zeros after them where
a layout does without a point. -/
theorem write_eq (hdigits : IsDigitRun digits) (hzero : digits.head? ≠ some '0') (top : Int) :
    (∃ n : Nat, layout.keepsPoint = false ∧ top < layout.fixedTo ∧ top + 1 - digits.length = n ∧
        layout.write digits top = digits ++ List.replicate n '0') ∨
      ∃ d : Decimal, layout.write digits top = d.text ∧ StandsFor layout d digits top := by
  by_cases hfixed : layout.fixedFrom ≤ top ∧ top < layout.fixedTo
  · rcases Int.lt_or_le top 0 with hneg | hpos
    · exact .inr (layout.write_fraction hdigits hfixed hneg)
    · rcases layout.write_positional hdigits hzero hfixed hpos with ⟨n, hpoint, hn, hwrite⟩ | h
      · exact .inl ⟨n, hpoint, hfixed.2, hn, hwrite⟩
      · exact .inr h
  · exact .inr (layout.write_power hdigits hzero hfixed)

end Layout

private theorem exists_decimal (hdigits : IsDigitRun digits) (hzero : digits.head? ≠ some '0')
    (top : Int) : ∃ d : Decimal, documentLayout.write digits top = d.text := by
  rcases documentLayout.write_eq hdigits hzero top with ⟨n, hpoint, -⟩ | ⟨d, hd, -⟩
  · exact absurd hpoint (by decide)
  · exact ⟨d, hd⟩

private theorem document_finite (negative : Bool) (m : Nat) (e : Int) :
    ∃ d : Decimal,
      document (.finite negative m e) = if negative then '-' :: d.text else d.text := by
  obtain ⟨d, hd⟩ : ∃ d : Decimal, document (.finite false m e) = d.text := by
    by_cases hm : m = 0
    · exact ⟨⟨['0'], some ['0'], none, isDigitRun_singleton (by decide), .inl rfl,
        by simpa using isDigitRun_singleton (by decide), by simp, by simp⟩, by
          rw [document, if_pos hm]
          rfl⟩
    · rw [document, if_neg hm]
      have hpos := shortestDecimal_pos (Nat.pos_of_ne_zero hm) e
      obtain ⟨c, cs, hcs⟩ := List.exists_cons_of_ne_nil
        (isDigitRun_ofNat (shortestDecimal m e).1).1
      have hrun := isDigitRun_ofNat (shortestDecimal m e).1
      have hne := head?_ofNat hpos
      rw [hcs] at hrun hne
      have hc : c ≠ '0' := by simpa using hne
      have htrim : IsDigitRun (trimRight '0' (c :: cs)) :=
        ⟨by simp [trimRight_cons hc], fun d hd => hrun.2 d (mem_trimRight hd)⟩
      simpa [hcs] using exists_decimal htrim (by simpa [trimRight_cons hc] using hc) _
  refine ⟨d, ?_⟩
  rw [← hd]
  cases negative <;> rfl

end layout

section rereading

/-- The double that is read where one was written. -/
def reread (x : Double) : Double :=
  match readSimple x.document with
  | .ok (.number y, _) => y
  | _ => x

theorem readSimple_document (x : Double) {r : Text} (hr : EndsNumber r) :
    readSimple (x.document ++ r) = .ok (.number x.reread, r) := by
  obtain ⟨y, hy⟩ : ∃ y, ∀ r, EndsNumber r →
      readSimple (x.document ++ r) = .ok (.number y, r) := by
    cases x with
    | infinite negative =>
      refine ⟨.infinite negative, fun r _ => ?_⟩
      cases negative <;> simp [document, readSimple, words_eq, text]
    | notANumber => exact ⟨.notANumber, fun r _ => by simp [document, readSimple, words_eq, text]⟩
    | finite negative m e =>
      obtain ⟨d, hd⟩ := document_finite negative m e
      refine ⟨d.value negative, fun r hr => ?_⟩
      have hsimple :=
        readSimple_digits d.isWhole (fractionText d.fraction ++ powerText d.power ++ r)
      have hvalue := d.readUnsigned_text negative hr
      cases negative with
      | false =>
        rw [hd, if_neg (by simp), ← hvalue]
        simpa [Decimal.text] using hsimple.1
      | true =>
        rw [hd, if_pos rfl, ← hvalue]
        simpa [Decimal.text] using hsimple.2
  have hreread : x.reread = y := by
    have h := hy [] endsNumber_nil
    rw [List.append_nil] at h
    rw [reread, h]
  rw [hreread, hy r hr]

end rereading

end Double

end DeskCalc
