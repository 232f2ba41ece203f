import DeskCalc.Proofs.Json.Numbers
import DeskCalc.Proofs.Json.Room
import DeskCalc.Proofs.Json.Tidy

/-!
# Reading what was written

The text of a tidy value, in which all texts are plain, is read back as the value itself, except
that every double is read as the double that its own text stands for. It takes no more room to read
than brackets are nested in the value. So nothing is lost but, at worst, digits of a double: keys
and their order, texts, integers and the shape of the value stay.
-/

namespace DeskCalc

namespace Json

section strings

private theorem hexValue?_hexDigit : ∀ n < 16, hexValue? (Text.hexDigit n) = some n := by decide

private theorem codeUnit?_hexDigits {n : Nat} (hn : n < 16 ^ 4) (rest : Text) :
    codeUnit? (Text.hexDigits 4 n ++ rest) = some (n, rest) := by
  have hdigit : ∀ k, hexValue? (Text.hexDigit (k % 16)) = some (k % 16) := fun k =>
    hexValue?_hexDigit _ (Nat.mod_lt _ (by decide))
  have hvalue :
      ((n / 16 / 16 / 16 % 16 * 16 + n / 16 / 16 % 16) * 16 + n / 16 % 16) * 16 + n % 16 = n := by
    omega
  simp only [Text.hexDigits, List.nil_append, List.cons_append, codeUnit?, hdigit,
    Option.bind_eq_bind, Option.bind_some, hvalue]
  rfl

private theorem unicodeEscape?_hexDigits {c : Char} (hc : c.toNat < 0x20) (rest : Text) :
    unicodeEscape? (Text.hexDigits 4 c.toNat ++ rest) = some (.char c, rest) := by
  rw [unicodeEscape?, codeUnit?_hexDigits (by omega)]
  simp only [Option.bind_eq_bind, Option.bind_some]
  rw [if_neg (by omega), if_neg (by omega), Char.ofNat_toNat]
  rfl

/-- One character between quotes takes one step. -/
private theorem stringWithin_escapeChar (c : Char) (fuel : Nat) (t : Text) :
    stringWithin (fuel + 1) (escapeChar c ++ t) =
      (stringWithin fuel t).map fun (s, rest) => (.char c :: s, rest) := by
  have hescape : ∀ u, escape? (u ++ t) = some (.char c, t) →
      stringWithin (fuel + 1) ('\\' :: u ++ t) =
        (stringWithin fuel t).map fun (s, rest) => (.char c :: s, rest) := by
    intro u hu
    have hquote : ¬('\\' = '"') := by decide
    simp only [List.cons_append, stringWithin, if_neg hquote, if_true, hu, Option.bind_eq_bind,
      Option.bind_some]
    cases stringWithin fuel t <;> rfl
  unfold escapeChar
  split
  · next h => exact hescape ['"'] (by rw [h]; rfl)
  split
  · next h => exact hescape ['\\'] (by rw [h]; rfl)
  split
  · next h => exact hescape ['n'] (by rw [h]; rfl)
  split
  · next h => exact hescape ['r'] (by rw [h]; rfl)
  split
  · next h => exact hescape ['t'] (by rw [h]; rfl)
  split
  · next h => exact hescape ['f'] (by rw [h]; rfl)
  split
  · next h => exact hescape ['b'] (by rw [h]; rfl)
  split
  · next h => exact hescape ('u' :: Text.hexDigits 4 c.toNat) (unicodeEscape?_hexDigits h t)
  · next hquote hslash _ _ _ _ _ hcontrol =>
    simp only [List.cons_append, List.nil_append, stringWithin, if_neg hquote, if_neg hslash,
      if_neg hcontrol]
    cases stringWithin fuel t <;> rfl

private theorem stringWithin_flatMap {fuel : Nat} {s : Text} (h : s.length < fuel) (rest : Text) :
    stringWithin fuel (s.flatMap escapeChar ++ '"' :: rest) = some (.ofText s, rest) := by
  induction s generalizing fuel with
  | nil =>
    obtain ⟨fuel, rfl⟩ := Nat.exists_eq_succ_of_ne_zero (Nat.ne_of_gt h)
    rfl
  | cons c s ih =>
    obtain ⟨fuel, rfl⟩ := Nat.exists_eq_succ_of_ne_zero (Nat.ne_of_gt (Nat.zero_lt_of_lt h))
    rw [List.flatMap_cons, List.append_assoc, stringWithin_escapeChar,
      ih (Nat.lt_of_succ_lt_succ h)]
    rfl

private theorem length_le_flatMap (s : Text) : s.length ≤ (s.flatMap escapeChar).length := by
  have hone : ∀ c, 1 ≤ (escapeChar c).length := by
    intro c
    unfold escapeChar
    split_ifs <;> simp
  induction s with
  | nil => exact Nat.le_refl 0
  | cons c s ih =>
    rw [List.flatMap_cons, List.length_append, List.length_cons]
    have hc := hone c
    omega

private theorem readString_flatMap {s : DocText} (h : s.isPlain = true) (rest : Text) :
    readString (s.flatMap escapeDocChar ++ '"' :: rest) = .ok (s, rest) := by
  obtain ⟨t, rfl⟩ := DocText.isPlain_iff.mp h
  have hwritten : (DocText.ofText t).flatMap escapeDocChar = t.flatMap escapeChar := by
    rw [DocText.ofText, List.flatMap_map]
    rfl
  have hlength := length_le_flatMap t
  have hread : readString? (t.flatMap escapeChar ++ '"' :: rest) = some (.ofText t, rest) := by
    refine stringWithin_flatMap ?_ rest
    rw [List.length_append, List.length_cons]
    omega
  rw [hwritten, readString, hread]

end strings

section heads

/-- Whether a value can begin with the character. -/
def StartsValue (c : Char) : Prop :=
  Numeral.isPlainDigit c = true ∨ c ∈ ['n', 't', 'f', 'N', 'I', '-', '"', '[', '\x7b']

private theorem StartsValue.ne {c : Char} (h : StartsValue c) : isBlank c = false ∧ c ≠ ']' := by
  rcases h with hc | hc
  · have hall : ∀ d ∈ [' ', '\t', '\n', '\r', ']'], Numeral.isPlainDigit d = false := by decide
    have hne : ∀ d ∈ [' ', '\t', '\n', '\r', ']'], c ≠ d := by
      rintro d hd rfl
      simp [hall c hd] at hc
    simp only [List.forall_mem_cons] at hne
    obtain ⟨hspace, htab, hline, hreturn, hclosing, -⟩ := hne
    exact ⟨by simp [isBlank, hspace, htab, hline, hreturn], hclosing⟩
  · have hall : ∀ d ∈ ['n', 't', 'f', 'N', 'I', '-', '"', '[', '\x7b'],
        isBlank d = false ∧ d ≠ ']' := by
      decide
    exact hall c hc

private theorem readSimple_head {t : Text} {p : Json × Text} (h : readSimple t = .ok p) :
    ∃ c u, t = c :: u ∧
      (Numeral.isPlainDigit c = true ∨ c ∈ ['n', 't', 'f', 'N', 'I', '-']) := by
  cases t with
  | nil => simp [readSimple, words_eq, readUnsigned, readWhole?] at h
  | cons c u =>
    refine ⟨c, u, rfl, ?_⟩
    by_contra hc
    obtain ⟨hdigit, hletter⟩ := not_or.mp hc
    have hzero : c ≠ '0' := by
      rintro rfl
      exact hdigit (by decide)
    have hwhole : readWhole? (c :: u) = none := by
      unfold readWhole?
      split
      · next heq => exact absurd (List.cons.inj heq).1 hzero
      · simp [hdigit]
    unfold readSimple at h
    split at h
    · next w x hfind =>
      rcases begins_of_word (List.mem_of_find?_eq_some hfind) (List.find?_some hfind :) with
        ⟨d, v, heq, hd⟩ | ⟨v, heq⟩
      · exact hletter ((List.cons.inj heq).1 ▸ List.mem_append_left ['-'] hd)
      · exact hletter (by simp [(List.cons.inj heq).1])
    · split at h
      · next heq => exact hletter (by simp [(List.cons.inj heq).1])
      · simp [readUnsigned, hwhole] at h

private theorem valueWithin_of_readSimple {t : Text} {p : Json × Text} (h : readSimple t = .ok p)
    (fuel room : Nat) : valueWithin (fuel + 1) room t = .ok p := by
  obtain ⟨c, u, rfl, hc⟩ := readSimple_head h
  have hne : c ≠ '"' ∧ c ≠ '[' ∧ c ≠ '\x7b' := by
    rcases hc with hc | hc
    · refine ⟨?_, ?_, ?_⟩ <;>
      · rintro rfl
        exact absurd hc (by decide)
    · have hall : ∀ d ∈ ['n', 't', 'f', 'N', 'I', '-'], d ≠ '"' ∧ d ≠ '[' ∧ d ≠ '\x7b' := by decide
      exact hall c hc
  unfold valueWithin
  split
  · next heq => exact absurd (List.cons.inj heq).1 hne.1
  · next heq => exact absurd (List.cons.inj heq).1 hne.2.1
  · next heq => exact absurd (List.cons.inj heq).1 hne.2.2
  · exact h

end heads

section values

mutual

/-- The value that is read where one was written. -/
def reread : Json → Json
  | null => null
  | bool b => bool b
  | integer n => integer n
  | number x => number x.reread
  | string s => string s
  | array items => array (rereadItems items)
  | object members => object (rereadMembers members)

/-- The items that are read where some were written. -/
def rereadItems : List Json → List Json
  | [] => []
  | x :: xs => reread x :: rereadItems xs

/-- The members that are read where some were written. -/
def rereadMembers : List (DocText × Json) → List (DocText × Json)
  | [] => []
  | (k, v) :: ms => (k, reread v) :: rereadMembers ms

end

private theorem write_head (depth : Nat) (x : Json) :
    ∃ c t, write depth x = c :: t ∧ StartsValue c := by
  have hsimple : ∀ {t : Text} {p : Json × Text}, readSimple (t ++ []) = .ok p →
      ∃ c u, t = c :: u ∧ StartsValue c := by
    intro t p h
    rw [List.append_nil] at h
    obtain ⟨c, u, hcu, hc⟩ := readSimple_head h
    have hall : ∀ d ∈ ['n', 't', 'f', 'N', 'I', '-'],
        d ∈ ['n', 't', 'f', 'N', 'I', '-', '"', '[', '\x7b'] := by decide
    exact ⟨c, u, hcu, hc.imp_right (hall c)⟩
  cases x with
  | null => exact ⟨_, _, rfl, .inr (by decide)⟩
  | bool b => cases b <;> exact ⟨_, _, rfl, .inr (by decide)⟩
  | integer n =>
    cases n with
    | ofNat n =>
      have hrun := Text.isDigitRun_ofNat n
      obtain ⟨c, u, hcu⟩ := List.exists_cons_of_ne_nil hrun.1
      exact ⟨c, u, hcu, .inl (hrun.2 c (hcu ▸ List.mem_cons_self))⟩
    | negSucc n => exact ⟨'-', _, rfl, .inr (by decide)⟩
  | number x => exact hsimple (x.readSimple_document endsNumber_nil)
  | string s => exact ⟨_, _, rfl, .inr (by decide)⟩
  | array xs => cases xs <;> exact ⟨'[', _, rfl, .inr (by decide)⟩
  | object ms => cases ms <;> exact ⟨'\x7b', _, rfl, .inr (by decide)⟩

private theorem skipBlanks_newLine (depth : Nat) (t : Text) :
    skipBlanks (newLine depth ++ t) = skipBlanks t := by
  have hblank : ∀ c ∈ newLine depth, isBlank c = true := by
    intro c hc
    rcases List.mem_cons.mp hc with rfl | hc
    · decide
    · rw [(List.mem_replicate.mp hc).2]
      decide
  rw [skipBlanks, List.dropWhile_append_of_pos hblank, skipBlanks]

private theorem skipBlanks_cons {c : Char} (hc : isBlank c = false) (t : Text) :
    skipBlanks (c :: t) = c :: t := by
  simp [skipBlanks, hc]

private theorem skipBlanks_write (depth : Nat) (x : Json) (t : Text) :
    skipBlanks (write depth x ++ t) = write depth x ++ t := by
  obtain ⟨c, u, hu, hc⟩ := write_head depth x
  rw [hu, List.cons_append, skipBlanks_cons hc.ne.1]

private theorem skipBlanks_writeString (depth : Nat) (k : DocText) (t : Text) :
    skipBlanks (newLine depth ++ (writeString k ++ t)) = writeString k ++ t := by
  rw [skipBlanks_newLine, writeString, List.cons_append, List.cons_append]
  exact skipBlanks_cons (by decide) _

private theorem exists_succ_of_write {depth fuel : Nat} {x : Json}
    (h : (write depth x).length ≤ fuel) : ∃ n, fuel = n + 1 := by
  obtain ⟨c, t, hct, -⟩ := write_head depth x
  rw [hct, List.length_cons] at h
  exact Nat.exists_eq_succ_of_ne_zero (by omega)

/-- A value that is read back from its text, wherever that stands. -/
def Rereads (room : Nat) (x : Json) : Prop :=
  ∀ depth fuel rest, (write depth x).length ≤ fuel → EndsNumber rest →
    valueWithin fuel room (write depth x ++ rest) = .ok (x.reread, rest)

variable {room : Nat}

private theorem rereads_of_readSimple {x : Json}
    (h : ∀ depth rest, EndsNumber rest →
      readSimple (write depth x ++ rest) = .ok (x.reread, rest)) : Rereads room x := by
  intro depth fuel rest hfuel hrest
  obtain ⟨fuel, rfl⟩ := exists_succ_of_write hfuel
  exact valueWithin_of_readSimple (h depth rest hrest) fuel room

private theorem endsNumber_cons {c : Char} (hc : c = ',' ∨ c = '\n') (t : Text) :
    EndsNumber (c :: t) := by
  rintro d ⟨⟩
  rcases hc with rfl | rfl <;> decide

private theorem endsNumber_items (depth depth' : Nat) (xs : List Json) (t : Text) :
    EndsNumber (writeItems depth xs ++ (newLine depth' ++ t)) := by
  cases xs with
  | nil => exact endsNumber_cons (.inr rfl) _
  | cons x xs =>
    rw [writeItems]
    exact endsNumber_cons (.inl rfl) _

private theorem endsNumber_members (depth depth' : Nat) (ms : List (DocText × Json)) (t : Text) :
    EndsNumber (writeMembers depth ms ++ (newLine depth' ++ t)) := by
  cases ms with
  | nil => exact endsNumber_cons (.inr rfl) _
  | cons m ms =>
    obtain ⟨k, v⟩ := m
    rw [writeMembers]
    exact endsNumber_cons (.inl rfl) _

private theorem itemsWithin_write {x : Json} {xs : List Json} (hx : ∀ y ∈ x :: xs, Rereads room y)
    (depth depth' : Nat) {fuel : Nat}
    (hfuel : (write depth x).length + (writeItems depth xs).length < fuel) (rest : Text) :
    itemsWithin fuel room
    (write depth x ++ (writeItems depth xs ++ (newLine depth' ++ ']' :: rest))) =
      .ok (rereadItems (x :: xs), rest) := by
  induction xs generalizing x fuel with
  | nil =>
    obtain ⟨fuel, rfl⟩ := Nat.exists_eq_succ_of_ne_zero (by omega : fuel ≠ 0)
    have hvalue := hx x List.mem_cons_self depth fuel _ (by omega)
      (endsNumber_items depth depth' [] (']' :: rest))
    have hclosing : skipBlanks (writeItems depth [] ++ (newLine depth' ++ ']' :: rest)) =
        ']' :: rest := by
      rw [writeItems, List.nil_append, skipBlanks_newLine, skipBlanks_cons (by decide)]
    rw [itemsWithin, hvalue]
    simp only [bind, Except.bind, hclosing]
    rfl
  | cons y ys ih =>
    obtain ⟨fuel, rfl⟩ := Nat.exists_eq_succ_of_ne_zero (by omega : fuel ≠ 0)
    have hvalue := hx x List.mem_cons_self depth fuel _ (by omega)
      (endsNumber_items depth depth' (y :: ys) (']' :: rest))
    have hlength : (writeItems depth (y :: ys)).length =
        1 + (newLine depth).length + (write depth y).length + (writeItems depth ys).length := by
      simp [writeItems]
      omega
    have hfits : (write depth y).length + (writeItems depth ys).length < fuel := by omega
    have hitems := ih (fun z hz => hx z (List.mem_cons_of_mem _ hz)) hfits
    have hcomma : skipBlanks (writeItems depth (y :: ys) ++ (newLine depth' ++ ']' :: rest)) =
        ',' :: (newLine depth ++ (write depth y ++
          (writeItems depth ys ++ (newLine depth' ++ ']' :: rest)))) := by
      simp only [writeItems, List.cons_append, List.append_assoc]
      exact skipBlanks_cons (by decide) _
    rw [itemsWithin, hvalue]
    simp only [bind, Except.bind, hcomma, skipBlanks_newLine, skipBlanks_write, hitems]
    rfl

/-- One member of an object is read, and what follows it decides how to go on. -/
private theorem membersWithin_member {k : DocText} {v : Json} {depth fuel : Nat}
    {acc : List (DocText × Json)} {r : Text} (hkv : k.isPlain = true ∧ Rereads room v)
    (hfits : (write depth v).length ≤ fuel) (hr : EndsNumber r) (hk : k ∉ acc.map Prod.fst) :
    membersWithin (fuel + 1) room acc (writeString k ++ (':' :: ' ' :: (write depth v ++ r))) =
      match skipBlanks r with
      | '\x7d' :: rest => .ok (acc ++ [(k, v.reread)], rest)
      | ',' :: r => membersWithin fuel room (acc ++ [(k, v.reread)]) (skipBlanks r)
      | _ => .error .malformed := by
  have hvalue := hkv.2 depth fuel r hfits hr
  have hcolon : ∀ t, skipBlanks (':' :: t) = ':' :: t := skipBlanks_cons (by decide)
  have hspace : skipBlanks (' ' :: (write depth v ++ r)) = write depth v ++ r :=
    skipBlanks_write depth v r
  rw [writeString, List.cons_append, List.cons_append, List.append_assoc, List.singleton_append,
    membersWithin, readString_flatMap hkv.1]
  simp only [bind, Except.bind, hcolon, hspace, hvalue, set_of_not_mem hk]
  rfl

private theorem membersWithin_write {k : DocText} {v : Json} {ms : List (DocText × Json)}
    (hv : ∀ m ∈ (k, v) :: ms, m.1.isPlain = true ∧ Rereads room m.2) (depth depth' : Nat)
    {fuel : Nat} (hfuel : (write depth v).length + (writeMembers depth ms).length < fuel)
    (acc : List (DocText × Json))
    (hkeys : (acc.map Prod.fst ++ ((k, v) :: ms).map Prod.fst).Nodup) (rest : Text) :
    membersWithin fuel room acc (writeString k ++ (':' :: ' ' :: (write depth v ++
        (writeMembers depth ms ++ (newLine depth' ++ '\x7d' :: rest))))) =
      .ok (acc ++ rereadMembers ((k, v) :: ms), rest) := by
  induction ms generalizing k v fuel acc with
  | nil =>
    obtain ⟨fuel, rfl⟩ := Nat.exists_eq_succ_of_ne_zero (by omega : fuel ≠ 0)
    have hfresh : k ∉ acc.map Prod.fst := fun hk =>
      (List.nodup_append.mp hkeys).2.2 k hk k (by simp) rfl
    have hclosing : skipBlanks (writeMembers depth [] ++ (newLine depth' ++ '\x7d' :: rest)) =
        '\x7d' :: rest := by
      rw [writeMembers, List.nil_append, skipBlanks_newLine, skipBlanks_cons (by decide)]
    have hfirst : (write depth v).length ≤ fuel := by omega
    rw [membersWithin_member (hv (k, v) List.mem_cons_self) hfirst
      (endsNumber_members depth depth' [] ('\x7d' :: rest)) hfresh, hclosing]
    rfl
  | cons m ms ih =>
    obtain ⟨k', v'⟩ := m
    obtain ⟨fuel, rfl⟩ := Nat.exists_eq_succ_of_ne_zero (by omega : fuel ≠ 0)
    have hfresh : k ∉ acc.map Prod.fst := fun hk =>
      (List.nodup_append.mp hkeys).2.2 k hk k (by simp) rfl
    have hlength : (writeMembers depth ((k', v') :: ms)).length =
        3 + (newLine depth).length + (writeString k').length + (write depth v').length +
          (writeMembers depth ms).length := by
      simp [writeMembers]
      omega
    have hcomma : skipBlanks (writeMembers depth ((k', v') :: ms) ++
          (newLine depth' ++ '\x7d' :: rest)) =
        ',' :: (newLine depth ++ (writeString k' ++ (':' :: ' ' :: (write depth v' ++
          (writeMembers depth ms ++ (newLine depth' ++ '\x7d' :: rest)))))) := by
      simp only [writeMembers, List.cons_append, List.nil_append, List.append_assoc]
      exact skipBlanks_cons (by decide) _
    have hfits : (write depth v').length + (writeMembers depth ms).length < fuel := by omega
    have hrest := ih (fun m hm => hv m (List.mem_cons_of_mem _ hm)) hfits (acc ++ [(k, v.reread)])
      (by simpa using hkeys)
    have hfirst : (write depth v).length ≤ fuel := by omega
    rw [membersWithin_member (hv (k, v) List.mem_cons_self) hfirst
      (endsNumber_members depth depth' ((k', v') :: ms) ('\x7d' :: rest)) hfresh, hcomma]
    simp only [skipBlanks_writeString, hrest, rereadMembers, List.append_assoc, List.cons_append,
      List.nil_append]

private theorem rereads_array {items : List Json} (h : ∀ x ∈ items, Rereads room x) :
    Rereads (room + 1) (.array items) := by
  intro depth fuel rest hfuel _
  obtain ⟨fuel, rfl⟩ := exists_succ_of_write hfuel
  cases items with
  | nil =>
    rw [write, List.cons_append, List.cons_append, List.nil_append, valueWithin,
      skipBlanks_cons (by decide)]
    rfl
  | cons x xs =>
    have hlength : (write depth (.array (x :: xs))).length =
        2 + (newLine (depth + 1)).length + (write (depth + 1) x).length +
          (writeItems (depth + 1) xs).length + (newLine depth).length := by
      simp [write]
      omega
    have hfits : (write (depth + 1) x).length + (writeItems (depth + 1) xs).length < fuel := by
      omega
    have hitems := itemsWithin_write h (depth + 1) depth hfits rest
    have hfirst : ∀ t, skipBlanks (newLine (depth + 1) ++ (write (depth + 1) x ++ t)) =
        write (depth + 1) x ++ t := fun t => by
      rw [skipBlanks_newLine, skipBlanks_write]
    obtain ⟨c, t, hct, hc⟩ := write_head (depth + 1) x
    rw [write]
    simp only [List.cons_append, List.append_assoc, List.nil_append]
    rw [valueWithin_bracket, hfirst, hitems]
    · rfl
    · intro u hu
      rw [hfirst, hct] at hu
      exact hc.ne.2 (List.cons.inj hu).1

private theorem rereads_object {members : List (DocText × Json)}
    (keys : (members.map Prod.fst).Nodup)
    (h : ∀ m ∈ members, m.1.isPlain = true ∧ Rereads room m.2) :
    Rereads (room + 1) (.object members) := by
  intro depth fuel rest hfuel _
  obtain ⟨fuel, rfl⟩ := exists_succ_of_write hfuel
  cases members with
  | nil =>
    rw [write, List.cons_append, List.cons_append, List.nil_append, valueWithin,
      skipBlanks_cons (by decide)]
    rfl
  | cons m ms =>
    obtain ⟨k, v⟩ := m
    have hlength : (write depth (.object ((k, v) :: ms))).length =
        4 + (newLine (depth + 1)).length + (writeString k).length + (write (depth + 1) v).length +
          (writeMembers (depth + 1) ms).length + (newLine depth).length := by
      simp [write]
      omega
    have hfits : (write (depth + 1) v).length + (writeMembers (depth + 1) ms).length < fuel := by
      omega
    have hmembers := membersWithin_write h (depth + 1) depth hfits [] (by simpa using keys) rest
    rw [write]
    simp only [List.cons_append, List.append_assoc, List.nil_append]
    rw [valueWithin_brace, skipBlanks_writeString, hmembers]
    · rfl
    · intro u hu
      rw [skipBlanks_writeString] at hu
      exact absurd (List.cons.inj hu).1 (by decide)

theorem itemsArePlain_iff {items : List Json} :
    itemsArePlain items = true ↔ ∀ x ∈ items, x.isPlain = true := by
  induction items with
  | nil => simp [itemsArePlain]
  | cons x xs ih => rw [itemsArePlain, Bool.and_eq_true, ih, List.forall_mem_cons]

theorem membersArePlain_iff {members : List (DocText × Json)} :
    membersArePlain members = true ↔
      ∀ m ∈ members, m.1.isPlain = true ∧ m.2.isPlain = true := by
  induction members with
  | nil => simp [membersArePlain]
  | cons m ms ih =>
    obtain ⟨k, v⟩ := m
    rw [membersArePlain, Bool.and_eq_true, Bool.and_eq_true, ih, List.forall_mem_cons]

/-- A tidy value in which all texts are plain is read back. -/
theorem Tidy.rereads {x : Json} (h : Tidy room x) (hplain : x.isPlain = true) : Rereads room x := by
  induction h with
  | null =>
    refine rereads_of_readSimple fun depth rest _ => ?_
    simp [write, readSimple, words_eq, text, reread]
  | bool b =>
    refine rereads_of_readSimple fun depth rest _ => ?_
    cases b <;> simp [write, readSimple, words_eq, text, reread]
  | integer short =>
    exact rereads_of_readSimple fun depth rest hrest => readSimple_ofInt short hrest
  | number x => exact rereads_of_readSimple fun depth rest hrest => x.readSimple_document hrest
  | string s =>
    intro depth fuel rest hfuel _
    obtain ⟨fuel, rfl⟩ := exists_succ_of_write hfuel
    rw [write, writeString, List.cons_append, List.cons_append, List.append_assoc,
      List.singleton_append, valueWithin, readString_flatMap hplain]
    rfl
  | array _ ih => exact rereads_array fun x hx => ih x hx (itemsArePlain_iff.mp hplain x hx)
  | object keys _ ih =>
    refine rereads_object keys fun m hm => ?_
    obtain ⟨hkey, hvalue⟩ := membersArePlain_iff.mp hplain m hm
    exact ⟨hkey, ih m hm hvalue⟩

/-- What is written is read back. -/
theorem ofText_of_toText? {x : Json} {t : Text} (h : Tidy room x) (ht : x.toText? = some t) :
    ofText room t = .ok x.reread := by
  obtain ⟨hplain, rfl⟩ : x.isPlain = true ∧ write 0 x = t := by simpa [toText?] using ht
  have hvalue := h.rereads hplain 0 ((write 0 x).length + 1) [] (Nat.le_succ _) endsNumber_nil
  have hblanks := skipBlanks_write 0 x []
  rw [List.append_nil] at hvalue hblanks
  rw [ofText, hblanks, hvalue]
  rfl

end values

end Json

end DeskCalc
