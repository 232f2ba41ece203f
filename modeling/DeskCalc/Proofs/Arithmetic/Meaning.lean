import DeskCalc.Formula.Value
import DeskCalc.Proofs.Arithmetic.Reading
import Mathlib.Data.Nat.Factorial.Basic
import Mathlib.Tactic.Ring

/-!
# What arithmetic means

Every text that writes an expression is read as a tree with the value of the expression. The proof
is by induction on the rules by which such texts are formed: a text of each level resolves
completely in the layers of operators that the level allows.
-/

namespace DeskCalc

namespace ClosedForm

theorem sub_number (p q : Rat) : ofRat p - ofRat q = ofRat (p - q) := by
  have hsub : ofRat p - ofRat q = ofRat p + -ofRat q := rfl
  rw [hsub, neg_number, add_number]
  congr 1
  ring

private theorem pow_number (p : Rat) {n : Nat} (hn : 2 ≤ n) :
    ofRat p ^ ofRat n = ofRat (p ^ n) := by
  have hpow : ofRat p ^ ofRat n = scalarPower (.exact p) (.exact n) := rfl
  have hne : ∀ m : Rat, (n : Rat) ≠ m → Scalar.exact (n : Rat) ≠ .exact m :=
    fun m h h' => h (Scalar.exact.inj h')
  have hzero : Scalar.exact (n : Rat) ≠ 0 := hne 0 (by norm_cast; omega)
  have hone : Scalar.exact (n : Rat) ≠ 1 := hne 1 (by norm_cast; omega)
  rw [hpow, scalarPower]
  by_cases hp : p = 1
  · subst hp
    rw [if_pos (.inr rfl), one_pow]
    rfl
  have hp' : Scalar.exact p ≠ 1 := fun h => hp (Scalar.exact.inj h)
  rw [if_neg (by simp [hzero, hp']), if_neg hone]
  by_cases hpzero : p = 0
  · subst hpzero
    have hn' : (n : Rat) ≠ 0 := by norm_cast; omega
    have hsign : 0 < Scalar.sign (.exact (n : Rat)) := by
      simpa [Scalar.sign] using show 0 < n by omega
    simp only [Scalar.isZero, decide_true, if_true, hn', decide_false, Bool.false_eq_true, if_false,
      hsign, zero_pow (show n ≠ 0 by omega)]
    rfl
  · simp [Scalar.isZero, hpzero]

end ClosedForm

private theorem risingProduct_eq (low count : Nat) :
    risingProduct low count = (low + 1).ascFactorial count := by
  fun_induction risingProduct low count with
  | case1 => simp
  | case2 => simp [Nat.ascFactorial]
  | case3 low count hzero hone ih ih' =>
    have hsplit : low + count / 2 + 1 = low + 1 + count / 2 := by omega
    rw [ih, ih', hsplit, Nat.ascFactorial_mul_ascFactorial,
      Nat.add_sub_cancel' (Nat.div_le_self _ _)]

private theorem factorialOf_eq (n : Nat) : factorialOf n = n.factorial := by
  rw [factorialOf, risingProduct_eq, Nat.zero_add, Nat.one_ascFactorial]

namespace Arithmetic

open Formula ClosedForm

/-- The operators of products. -/
def productOps : List Operator := [.times, .over, .floorOver, .modulo]

/-- The operators of sums. -/
def sumOps : List Operator := [.plus, .minus]

/-- The layers of operators that may stand outside parentheses in a text of the given level. -/
def Level.layers : Level → List (List Operator)
  | .atom | .power | .factor => []
  | .product => [productOps]
  | .sum => [productOps, sumOps]

/-- What a text of the given level reads as and means. -/
structure Sense (level : Level) (start : Bool) (value : Rat) (t : Text) (es : List Element)
    (d : Nat) (x : Tree) : Prop where
  reading : Reading t es d
  outline : outline? level.layers (joinAdjacent es) = some (x, [])
  value : x.value? = some (ofRat value)
  last : ∃ es' y, es = es' ++ [.operand y]
  first : start = false → ∃ y es', es = .operand y :: es'
  atom : level = .atom → es = [.operand x]

namespace Sense

variable {level : Level} {start : Bool} {v w : Rat} {s t : Text} {es fs : List Element} {d e : Nat}
variable {x y : Tree} {o : Operator}

private theorem operand (hreading : Reading t [.operand x] d) (hvalue : x.value? = some (ofRat v))
    (level : Level) (start : Bool) : Sense level start v t [.operand x] d x where
  reading := hreading
  outline := outline?_operand _ x
  value := hvalue
  last := ⟨[], x, rfl⟩
  first _ := ⟨x, [], rfl⟩
  atom _ := rfl

/-- The tree of a text that stands alone or in parentheses. -/
theorem tree? (h : Sense .sum start v t es d x) : tree? (joinAdjacent es) = some x := by
  have hlayers := outline?_weaken (outline?_weaken (outline?_weaken h.outline
    [.shiftLeft, .shiftRight]) [.both]) [.either]
  exact tree?_of_outline hlayers

private theorem weaken {upper : Level} {ops : List (List Operator)}
    (h : Sense level start v t es d x) (hupper : upper ≠ .atom)
    (hlayers : upper.layers = level.layers ++ ops) : Sense upper start v t es d x where
  reading := h.reading
  outline := by
    rw [hlayers]
    clear hlayers
    induction ops using List.reverseRecOn with
    | nil => rw [List.append_nil]; exact h.outline
    | append_singleton ops ops' ih =>
      rw [← List.append_assoc]
      exact outline?_weaken ih ops'
  value := h.value
  last := h.last
  first := h.first
  atom hatom := absurd hatom hupper

private theorem binary {upper : Level} {ops : List Operator} {u : Rat} {r : Text}
    {gs : List Element} (ha : Sense upper start v s es d x) (hb : Sense level false w t fs e y)
    (hupper : upper ≠ .atom) (hlayers : upper.layers = level.layers ++ [ops]) (hmem : o ∈ ops)
    (hpower : o ≠ .power) (hbinary : isBinary o = true) (hlower : ∀ ops ∈ level.layers, o ∉ ops)
    (hreading : Reading r gs (max d e)) (hgs : gs = es ++ .op o :: fs ∨ gs = es ++ fs ∧ o = .times)
    (hvalue : o.value? (ofRat v) (ofRat w) = some (ofRat u)) :
    Sense upper start u r gs (max d e) (.binary o x y) := by
  obtain ⟨es', z, hes⟩ := ha.last
  obtain ⟨z', fs', hfs⟩ := hb.first rfl
  have hjoin : joinAdjacent gs = joinAdjacent es ++ .op o :: joinAdjacent fs := by
    rcases hgs with rfl | ⟨rfl, rfl⟩
    · exact joinAdjacent_op es fs o
    · rw [hes, hfs, List.append_assoc, List.singleton_append]
      exact joinAdjacent_operand es' fs' z z'
  refine ⟨hreading, ?_, ?_, ?_, fun hstart => ?_, fun hatom => absurd hatom hupper⟩
  · have houtline := ha.outline
    rw [hlayers] at houtline
    rw [hjoin, hlayers]
    exact outline?_binary hmem hpower hbinary hlower houtline hb.outline
  · simp [Tree.value?, ha.value, hb.value, hvalue]
  · obtain ⟨fs'', z'', hfs'⟩ := hb.last
    rcases hgs with rfl | ⟨rfl, -⟩
    · exact ⟨es ++ .op o :: fs'', z'', by rw [hfs']; simp⟩
    · exact ⟨es ++ fs'', z'', by rw [hfs']; simp⟩
  · obtain ⟨z'', es'', hes'⟩ := ha.first hstart
    rcases hgs with rfl | ⟨rfl, -⟩
    · exact ⟨z'', es'' ++ .op o :: fs, by rw [hes']; rfl⟩
    · exact ⟨z'', es'' ++ fs, by rw [hes']; rfl⟩

private theorem negate (h : Sense .power false v t es d x) :
    Sense .factor true (-v) ('-' :: t) (.op .minus :: es) d (.signed .minus x) where
  reading := h.reading.sign
  outline := by
    have hjoin : joinAdjacent (.op .minus :: es) = .op .minus :: joinAdjacent es :=
      joinAdjacent_op [] es .minus
    have houtline : outline? [] (joinAdjacent es) = some (x, []) := h.outline
    rw [hjoin]
    show outline? [] _ = _
    rw [outline?_sign (s := .minus) rfl, houtline]
    rfl
  value := by
    simp [Tree.value?, h.value, neg_number]
  last := by
    obtain ⟨es', y, rfl⟩ := h.last
    exact ⟨.op .minus :: es', y, rfl⟩
  first hstart := absurd hstart (by simp)
  atom hatom := absurd hatom (by simp)

private theorem powerReading {c : Char} (hc : c = '2' ∨ c = '3') :
    Reading [c] [.operand (.number (.integer 10 [c]))] 1 := by
  rcases hc with rfl | rfl
  · exact Reading.numeral ⟨['2'], by decide, by decide, by decide⟩
  · exact Reading.numeral ⟨['3'], by decide, by decide, by decide⟩

private theorem power (h : Sense .atom start v t es d x) {c : Char} {n : Nat}
    (hc : c = '2' ∨ c = '3') (hn : (Tree.number (.integer 10 [c])).value? = some (ofRat n))
    (htwo : 2 ≤ n) :
    Sense .power start (v ^ n) (t ++ ['^', c])
      [.operand x, .op .power, .operand (.number (.integer 10 [c]))] (max d 1)
      (.binary .power x (.number (.integer 10 [c]))) := by
  have hes := h.atom rfl
  subst hes
  have hvalue : Operator.value? .power (ofRat v) (ofRat n) = some (ofRat (v ^ n)) :=
    congrArg some (pow_number v htwo)
  refine ⟨h.reading.binary (powerReading hc) (o := .power) (by decide), rfl, ?_, ?_,
    fun _ => ⟨x, _, rfl⟩, fun hatom => absurd hatom (by simp)⟩
  · rw [Tree.value?, h.value, hn]
    exact hvalue
  · exact ⟨[.operand x, .op .power], _, rfl⟩

end Sense

private theorem number_value (n : Literal) :
    (Tree.number (.integer 10 n.significant)).value? = some (ofRat n.value) := by
  rw [Tree.value?, n.significant_value]
  rfl

private theorem factorial_value (n : Literal) :
    (Tree.call (.fn .factorial) (.number (.integer 10 n.significant))).value? =
      some (ofRat n.value.factorial) := by
  rw [Tree.value?, number_value, ← factorialOf_eq]
  have hsign : ¬((n.value : Int) < 0) := by omega
  simp [Fn.eval?, ofRat, Fn.factorialForm, hsign]

/-- Every text that writes an expression without divisions by zero has the value of the expression,
and its tree the height. -/
theorem Rendered.sense {level : Level} {start : Bool} {e : Arithmetic} {t : Text}
    (h : Rendered level start e t) (he : e.IsDefined) :
    ∃ es d x, Sense level start e.value t es d x ∧ x.height = e.height := by
  induction h with
  | numeral n => exact ⟨_, _, _, .operand (.numeral n) (number_value n) _ _, rfl⟩
  | group _ ih =>
    obtain ⟨es, d, x, h, hheight⟩ := ih he
    exact ⟨_, _, _, .operand (h.reading.group h.tree?) h.value _ _, hheight⟩
  | factorial n => exact ⟨_, _, _, .operand (.factorial n) (factorial_value n) _ _, rfl⟩
  | square _ ih =>
    obtain ⟨es, d, x, h, hheight⟩ := ih he
    exact ⟨_, _, _, h.power (.inl rfl) rfl (Nat.le_refl 2), by simp [Tree.height, height, hheight]⟩
  | cube _ ih =>
    obtain ⟨es, d, x, h, hheight⟩ := ih he
    exact ⟨_, _, _, h.power (.inr rfl) rfl (by decide), by simp [Tree.height, height, hheight]⟩
  | ofAtom _ ih =>
    obtain ⟨es, d, x, h, hheight⟩ := ih he
    exact ⟨_, _, _, h.weaken (by simp) (List.append_nil _).symm, hheight⟩
  | negate _ ih =>
    obtain ⟨es, d, x, h, hheight⟩ := ih he
    exact ⟨_, _, _, h.negate, by simp [Tree.height, height, hheight]⟩
  | ofPower _ ih =>
    obtain ⟨es, d, x, h, hheight⟩ := ih he
    exact ⟨_, _, _, h.weaken (by simp) (List.append_nil _).symm, hheight⟩
  | times _ _ ihx ihy =>
    obtain ⟨es, d, x, hx, hxheight⟩ := ihx he.1
    obtain ⟨fs, d', y, hy, hyheight⟩ := ihy he.2
    exact ⟨_, _, _, hx.binary hy (by simp) rfl (o := .times) (by decide) (by decide) (by decide)
      (by simp [Level.layers]) (hx.reading.binary hy.reading (by decide)) (.inl rfl) rfl,
      by simp [Tree.height, height, hxheight, hyheight]⟩
  | adjacent _ _ _ ihx ihy =>
    obtain ⟨es, d, x, hx, hxheight⟩ := ihx he.1
    obtain ⟨fs, d', y, hy, hyheight⟩ := ihy he.2
    exact ⟨_, _, _, hx.binary hy (by simp) rfl (o := .times) (by decide) (by decide) (by decide)
      (by simp [Level.layers]) (hx.reading.adjacent hy.reading) (.inr ⟨rfl, rfl⟩) rfl,
      by simp [Tree.height, height, hxheight, hyheight]⟩
  | «over» _ _ ihx ihy =>
    obtain ⟨es, d, x, hx, hxheight⟩ := ihx he.1
    obtain ⟨fs, d', y, hy, hyheight⟩ := ihy he.2.1
    exact ⟨_, _, _, hx.binary hy (by simp) rfl (o := .over) (by decide) (by decide) (by decide)
      (by simp [Level.layers]) (hx.reading.binary hy.reading (by decide)) (.inl rfl)
      (congrArg some (div_number _ _ he.2.2)),
      by simp [Tree.height, height, hxheight, hyheight]⟩
  | ofFactor _ ih =>
    obtain ⟨es, d, x, h, hheight⟩ := ih he
    exact ⟨_, _, _, h.weaken (by simp) rfl, hheight⟩
  | plus _ _ ihx ihy =>
    obtain ⟨es, d, x, hx, hxheight⟩ := ihx he.1
    obtain ⟨fs, d', y, hy, hyheight⟩ := ihy he.2
    exact ⟨_, _, _, hx.binary hy (by simp) rfl (o := .plus) (by decide) (by decide) (by decide)
      (by decide) (hx.reading.binary hy.reading (by decide)) (.inl rfl) rfl,
      by simp [Tree.height, height, hxheight, hyheight]⟩
  | minus _ _ ihx ihy =>
    obtain ⟨es, d, x, hx, hxheight⟩ := ihx he.1
    obtain ⟨fs, d', y, hy, hyheight⟩ := ihy he.2
    exact ⟨_, _, _, hx.binary hy (by simp) rfl (o := .minus) (by decide) (by decide) (by decide)
      (by decide) (hx.reading.binary hy.reading (by decide)) (.inl rfl)
      (congrArg some (sub_number _ _)),
      by simp [Tree.height, height, hxheight, hyheight]⟩
  | ofProduct _ ih =>
    obtain ⟨es, d, x, h, hheight⟩ := ih he
    exact ⟨_, _, _, h.weaken (by simp) rfl, hheight⟩

end Arithmetic

end DeskCalc
