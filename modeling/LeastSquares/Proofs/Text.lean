import LeastSquares.Config.Validation
import LeastSquares.Decimal.Layout
import LeastSquares.Proofs.Shortest
import LeastSquares.Text.Message
import LeastSquares.Text.Table

namespace LeastSquares

namespace Layout

/-- A text of digits with at most one point among them, that stands for a number. -/
def Reads (text : List Char) (v : ℚ) : Prop :=
  ∃ whole fraction : List Char,
    text = whole ++ (if fraction = [] then [] else '.' :: fraction) ∧
    whole ≠ [] ∧ (∀ c ∈ whole ++ fraction, c.isDigit = true) ∧
    (Nat.ofDigitChars 10 (whole ++ fraction) 0 : ℚ) = v * 10 ^ fraction.length

theorem isDigit_of_mem_zeros {k : Int} {c : Char} (hc : c ∈ zeros k) : c.isDigit = true := by
  rw [List.eq_of_mem_replicate hc]
  rfl

theorem isDigit_of_mem_toDigits {k : Nat} {c : Char} (hc : c ∈ Nat.toDigits 10 k) :
    c.isDigit = true :=
  Nat.isDigit_of_mem_toDigits (by decide) (by decide) hc

theorem ofDigitChars_zeros (l : List Char) (k : Int) :
    Nat.ofDigitChars 10 (l ++ zeros k) 0 = 10 ^ k.toNat * Nat.ofDigitChars 10 l 0 := by
  rw [Nat.ofDigitChars_append, zeros, Nat.ofDigitChars_replicate_zero]

theorem reads_split {c n : Nat} (hn : 0 < n) (hle : n ≤ (Nat.toDigits 10 c).length) :
    Reads ((Nat.toDigits 10 c).take n ++
        if (Nat.toDigits 10 c).length ≤ n then [] else '.' :: (Nat.toDigits 10 c).drop n)
      (c * 10 ^ ((n : Int) - (Nat.toDigits 10 c).length)) := by
  refine ⟨(Nat.toDigits 10 c).take n, (Nat.toDigits 10 c).drop n,
    by simp only [List.drop_eq_nil_iff], ?_, ?_, ?_⟩
  · rw [Ne, List.take_eq_nil_iff, not_or]
    exact ⟨hn.ne', Nat.toDigits_ne_nil⟩
  · rw [List.take_append_drop]
    exact fun c hc => isDigit_of_mem_toDigits hc
  · rw [List.take_append_drop, Nat.ofDigitChars_ten_toDigits, List.length_drop, mul_assoc,
      ← zpow_natCast, ← zpow_add₀ (by norm_num), Nat.cast_sub hle, sub_add_sub_cancel, sub_self,
      zpow_zero, mul_one]

theorem reads_padded (c : Nat) (k : Int) :
    Reads ('0' :: '.' :: zeros k ++ Nat.toDigits 10 c)
      (c * 10 ^ (-((k.toNat + (Nat.toDigits 10 c).length : Nat) : Int))) := by
  refine ⟨['0'], zeros k ++ Nat.toDigits 10 c, ?_, nofun, ?_, ?_⟩
  · rw [if_neg (by simp)]
    rfl
  · simp only [List.mem_append, List.mem_singleton]
    rintro c (rfl | hc | hc)
    · rfl
    · exact isDigit_of_mem_zeros hc
    · exact isDigit_of_mem_toDigits hc
  · have hnumber : Nat.ofDigitChars 10 (['0'] ++ (zeros k ++ Nat.toDigits 10 c)) 0 = c := by
      rw [← List.append_assoc, Nat.ofDigitChars_append, ofDigitChars_zeros]
      simp [Nat.ofDigitChars_cons]
    have hlength : (zeros k ++ Nat.toDigits 10 c).length =
        k.toNat + (Nat.toDigits 10 c).length := by
      rw [List.length_append, zeros, List.length_replicate]
    rw [hnumber, hlength, zpow_neg, zpow_natCast, inv_mul_cancel_right₀ (by positivity)]

theorem reads_whole (c : Nat) (k : Int) (point : Bool) :
    Reads (Nat.toDigits 10 c ++ zeros k ++ if point then ['.', '0'] else [])
      (c * 10 ^ k.toNat) := by
  have hnumber : (Nat.ofDigitChars 10 (Nat.toDigits 10 c ++ zeros k) 0 : ℚ) =
      c * 10 ^ k.toNat := by
    rw [ofDigitChars_zeros, Nat.ofDigitChars_ten_toDigits]
    push_cast
    ring
  have hdigit : ∀ x ∈ Nat.toDigits 10 c ++ zeros k, x.isDigit = true := fun x hx =>
    (List.mem_append.mp hx).elim isDigit_of_mem_toDigits isDigit_of_mem_zeros
  have hnil : Nat.toDigits 10 c ++ zeros k ≠ [] := by simp
  cases point with
  | false =>
    refine ⟨_, [], rfl, hnil, ?_, ?_⟩
    · rwa [List.append_nil]
    · rw [List.append_nil, hnumber, List.length_nil, pow_zero, mul_one]
  | true =>
    refine ⟨_, ['0'], rfl, hnil, ?_, ?_⟩
    · intro x hx
      refine (List.mem_append.mp hx).elim (hdigit x) fun hzero => ?_
      rw [List.mem_singleton.mp hzero]
      rfl
    · rw [Nat.ofDigitChars_append, ← hnumber]
      simp [Nat.ofDigitChars_cons, mul_comm]

theorem reads_positionalDigits (l : Layout) (d : Decimal) {point : Int}
    (hpoint : point = d.exponent + d.digits) :
    Reads (l.positionalDigits (Nat.toDigits 10 d.coefficient) point) d.value := by
  have hlength : (Nat.toDigits 10 d.coefficient).length = d.digits := rfl
  unfold positionalDigits
  rw [hlength]
  split
  case isTrue hle =>
    have hreads := reads_padded d.coefficient (-point)
    rwa [hlength, show -(((-point).toNat + d.digits : Nat) : Int) = d.exponent by omega] at hreads
  case isFalse hgt =>
    split
    case isTrue hwhole =>
      have hreads := reads_whole d.coefficient (point - d.digits) l.wholePoint
      rwa [← zpow_natCast, show ((point - d.digits).toNat : Int) = d.exponent by omega] at hreads
    case isFalse hinside =>
      have hreads := reads_split (c := d.coefficient) (n := point.toNat) (by omega) (by omega)
      rwa [hlength, if_neg (by omega),
        show (point.toNat : Int) - d.digits = d.exponent by omega] at hreads

theorem reads_withExponent (d : Decimal) {e : Int} (he : e = d.exponent + d.digits - 1) :
    ∃ text, withExponent (Nat.toDigits 10 d.coefficient) e =
      text ++ 'e' :: (toString e).toList ∧ Reads text (d.value / 10 ^ e) := by
  have hlength : (Nat.toDigits 10 d.coefficient).length = d.digits := rfl
  have hreads := reads_split (c := d.coefficient) one_pos d.digits_pos
  have hvalue : d.value / 10 ^ e = d.coefficient * 10 ^ ((1 : Nat) - d.digits : Int) := by
    rw [Decimal.value, mul_div_assoc, ← zpow_sub₀ (by norm_num), he]
    congr 2
    omega
  rw [hlength, ← hvalue] at hreads
  refine ⟨_, ?_, hreads⟩
  rw [withExponent, hlength]

theorem reads_decimal (l : Layout) (d : Decimal) : Reads (l.decimal d) d.value ∨
    ∃ text, ∃ e : Int, l.decimal d = text ++ 'e' :: (toString e).toList ∧
      Reads text (d.value / 10 ^ e) := by
  have hlength : (Nat.toDigits 10 d.coefficient).length = d.digits := rfl
  unfold decimal
  dsimp only
  rw [hlength]
  split
  · exact .inl (l.reads_positionalDigits d (sub_add_cancel _ _))
  · obtain ⟨text, htext, hreads⟩ := reads_withExponent d rfl
    exact .inr ⟨text, d.exponent + d.digits - 1, htext, hreads⟩

end Layout

theorem digitChar_inj {j k : Nat} (hj : j < 16) (hk : k < 16)
    (h : Nat.digitChar j = Nat.digitChar k) : j = k := by
  have hall : ∀ j k : Fin 16, Nat.digitChar j = Nat.digitChar k → j = k := by decide
  exact Fin.mk.inj_iff.mp (hall ⟨j, hj⟩ ⟨k, hk⟩ h)

theorem mem_toDigits_hex {c : Char} (k : Nat) (hc : c ∈ Nat.toDigits 16 k) :
    ∃ j < 16, c = Nat.digitChar j := by
  induction k using Nat.strong_induction_on with
  | _ k ih =>
    rw [Nat.toDigits_eq_if (by decide)] at hc
    split at hc
    · next hlt => exact ⟨k, hlt, List.mem_singleton.mp hc⟩
    · rcases List.mem_append.mp hc with hmem | hlast
      · exact ih (k / 16) (by omega) hmem
      · exact ⟨k % 16, Nat.mod_lt _ (by decide), List.mem_singleton.mp hlast⟩

theorem toDigits_hex_injective : Function.Injective (Nat.toDigits 16) := by
  intro j
  induction j using Nat.strong_induction_on with
  | _ j ih =>
    intro k h
    rw [Nat.toDigits_eq_if (by decide), Nat.toDigits_eq_if (n := k) (by decide)] at h
    split at h <;> split at h
    · next hj hk => exact digitChar_inj hj hk (List.singleton_inj.mp h)
    · have hlength := congrArg List.length h
      have hpos := Nat.length_toDigits_pos (b := 16) (n := k / 16)
      simp only [List.length_append, List.length_singleton] at hlength
      omega
    · have hlength := congrArg List.length h
      have hpos := Nat.length_toDigits_pos (b := 16) (n := j / 16)
      simp only [List.length_append, List.length_singleton] at hlength
      omega
    · obtain ⟨hfirst, hlast⟩ := List.append_inj' h rfl
      have hdiv := ih (j / 16) (by omega) hfirst
      have hmod := digitChar_inj (Nat.mod_lt _ (by decide)) (Nat.mod_lt _ (by decide))
        (List.singleton_inj.mp hlast)
      omega

theorem takeWhile_toDigits_hex (k : Nat) (l : List Char) :
    (Nat.toDigits 16 k ++ '\x7d' :: l).takeWhile (· ≠ '\x7d') = Nat.toDigits 16 k := by
  rw [List.takeWhile_append_of_pos fun c hc => ?_, List.takeWhile_cons_of_neg (by simp),
    List.append_nil]
  obtain ⟨j, -, rfl⟩ := mem_toDigits_hex k hc
  exact decide_eq_true (Nat.digitChar_ne _ (by decide))

def unescaped (c : Char) : Char :=
  if c = 't' then '\t' else if c = 'n' then '\n' else if c = 'r' then '\r'
  else if c = '0' then '\x00' else c

theorem quotedChar_cases (c : Char) :
    quotedChar c = [c] ∧ c ≠ '\\' ∧ c ≠ '"' ∧ isUnprinted c = false ∨
    (∃ x, quotedChar c = ['\\', x] ∧ x ≠ 'u' ∧ unescaped x = c ∧ isUnprinted x = false) ∨
    quotedChar c = ['\\', 'u', '\x7b'] ++ Nat.toDigits 16 c.toNat ++ ['\x7d'] := by
  unfold quotedChar
  split
  · next h => exact .inr (.inl ⟨'"', rfl, by decide, h.symm, by decide⟩)
  split
  · next h => exact .inr (.inl ⟨'\\', rfl, by decide, h.symm, by decide⟩)
  split
  · next h => exact .inr (.inl ⟨'t', rfl, by decide, h.symm, by decide⟩)
  split
  · next h => exact .inr (.inl ⟨'n', rfl, by decide, h.symm, by decide⟩)
  split
  · next h => exact .inr (.inl ⟨'r', rfl, by decide, h.symm, by decide⟩)
  split
  · next h => exact .inr (.inl ⟨'0', rfl, by decide, h.symm, by decide⟩)
  split
  · exact .inr (.inr rfl)
  · next hquote hslash _ _ _ _ hprinted =>
    exact .inl ⟨rfl, hslash, hquote, Bool.eq_false_of_not_eq_true hprinted⟩

theorem quotedChar_ne_nil (c : Char) : quotedChar c ≠ [] := by
  rcases quotedChar_cases c with ⟨h, -⟩ | ⟨x, h, -⟩ | h <;> simp [h]

theorem quotedChar_cancel {c d : Char} {l l' : List Char}
    (h : quotedChar c ++ l = quotedChar d ++ l') : c = d ∧ l = l' := by
  rcases quotedChar_cases c with ⟨hc, hslash, -⟩ | ⟨x, hc, hx, hxc, -⟩ | hc <;>
    rcases quotedChar_cases d with ⟨hd, hslash', -⟩ | ⟨y, hd, hy, hyd, -⟩ | hd <;>
    rw [hc, hd] at h
  · exact List.cons.inj h
  · exact absurd (List.cons.inj h).1 hslash
  · exact absurd (List.cons.inj h).1 hslash
  · exact absurd (List.cons.inj h).1.symm hslash'
  · obtain ⟨rfl, htail⟩ := List.cons.inj (List.cons.inj h).2
    exact ⟨hxc.symm.trans hyd, htail⟩
  · exact absurd (List.cons.inj (List.cons.inj h).2).1 hx
  · exact absurd (List.cons.inj h).1.symm hslash'
  · exact absurd (List.cons.inj (List.cons.inj h).2).1.symm hy
  · simp only [List.append_assoc, List.append_cancel_left_eq, List.singleton_append] at h
    have hdigits := congrArg (List.takeWhile (· ≠ '\x7d')) h
    simp only [takeWhile_toDigits_hex] at hdigits
    rw [hdigits, List.append_cancel_left_eq] at h
    exact ⟨Char.toNat_inj.mp (toDigits_hex_injective hdigits), (List.cons.inj h).2⟩

theorem quoted_injective : Function.Injective quoted := by
  intro s t h
  have hlists : s.toList.flatMap quotedChar = t.toList.flatMap quotedChar :=
    List.append_cancel_right (List.cons.inj (String.ofList_inj.mp h)).2
  refine String.toList_inj.mp ?_
  generalize s.toList = l, t.toList = l' at hlists ⊢
  induction l generalizing l' with
  | nil =>
    cases l' with
    | nil => rfl
    | cons d l' => exact absurd hlists.symm (by simp [quotedChar_ne_nil])
  | cons c l ih =>
    cases l' with
    | nil => exact absurd hlists (by simp [quotedChar_ne_nil])
    | cons d l' =>
      rw [List.flatMap_cons, List.flatMap_cons] at hlists
      obtain ⟨rfl, htail⟩ := quotedChar_cancel hlists
      rw [ih _ htail]

theorem isUnprinted_quoted {s : String} {c : Char} (hc : c ∈ (quoted s).toList) :
    isUnprinted c = false := by
  rw [quoted, String.toList_ofList] at hc
  rcases List.mem_append.mp hc with hc | hc
  · rcases List.mem_cons.mp hc with rfl | hc
    · decide
    · obtain ⟨d, -, hd⟩ := List.mem_flatMap.mp hc
      rcases quotedChar_cases d with ⟨heq, -, -, hprinted⟩ | ⟨x, heq, -, -, hprinted⟩ | heq <;>
        rw [heq] at hd
      · rwa [List.mem_singleton.mp hd]
      · rcases List.mem_pair.mp hd with rfl | rfl
        · decide
        · exact hprinted
      · simp only [List.mem_append, List.mem_cons, List.not_mem_nil, or_false] at hd
        rcases hd with ((rfl | rfl | rfl) | hdigit) | rfl
        · decide
        · decide
        · decide
        · obtain ⟨j, hj, rfl⟩ := mem_toDigits_hex _ hdigit
          have hall : ∀ j : Fin 16, isUnprinted (Nat.digitChar j) = false := by decide
          exact hall ⟨j, hj⟩
        · decide
  · rw [List.mem_singleton.mp hc]
    decide

namespace Table

theorem length_le_width {cells : List String} {s : String} (h : s ∈ cells) :
    s.length ≤ width cells := by
  have hfold (w : Nat) : w ≤ cells.foldl (fun w s => max w s.length) w ∧
      ∀ s ∈ cells, s.length ≤ cells.foldl (fun w s => max w s.length) w := by
    clear h
    induction cells generalizing w with
    | nil => exact ⟨le_rfl, nofun⟩
    | cons c cells ih =>
      obtain ⟨hle, hmem⟩ := ih (max w c.length)
      refine ⟨(le_max_left _ _).trans hle, ?_⟩
      rintro s (_ | ⟨_, hs⟩)
      · exact (le_max_right _ _).trans hle
      · exact hmem s hs
  exact (hfold 0).2 s h

theorem length_rule (left middle right : Char) (a b : Nat) :
    (rule left middle right a b).length = a + b + 7 := by
  simp [rule]
  omega

theorem length_cell {w : Nat} {s : String} (h : s.length ≤ w) : (cell w s).length = w + 2 := by
  have hblank : " ".length = 1 := rfl
  rw [cell, String.length_append, String.length_append, hblank, String.length_ofList,
    List.length_replicate]
  omega

theorem length_row {a b : Nat} {r : String × String} (ha : r.1.length ≤ a) (hb : r.2.length ≤ b) :
    (row a b r).length = a + b + 7 := by
  have hbar : "│".length = 1 := rfl
  simp only [row, String.length_append, length_cell ha, length_cell hb, hbar]
  omega

theorem mem_of_mem_intersperse {sep x : String} {l : List String} (h : x ∈ l.intersperse sep) :
    x = sep ∨ x ∈ l := by
  induction l with
  | nil => cases h
  | cons y l ih =>
    cases l with
    | nil => exact .inr h
    | cons z l =>
      rw [List.intersperse_cons_cons] at h
      rcases List.mem_cons.mp h with rfl | h
      · exact .inr List.mem_cons_self
      · rcases List.mem_cons.mp h with rfl | h
        · exact .inl rfl
        · exact (ih h).imp_right (List.mem_cons_of_mem _)

theorem write_lines (t : Table) : ∃ lines : List String,
    t.write = String.intercalate "\n" lines ∧ ∀ l ∈ lines,
      l.length = width (t.rows.map Prod.fst) + width (t.rows.map Prod.snd) + 7 := by
  unfold write
  refine ⟨_, rfl, fun l hl => ?_⟩
  rcases List.mem_append.mp hl with hl | hl
  · rcases List.mem_cons.mp hl with rfl | hl
    · exact length_rule _ _ _ _ _
    · rcases mem_of_mem_intersperse hl with rfl | hl
      · exact length_rule _ _ _ _ _
      · obtain ⟨r, hr, rfl⟩ := List.mem_map.mp hl
        exact length_row (length_le_width (List.mem_map_of_mem hr))
          (length_le_width (List.mem_map_of_mem hr))
  · rw [List.mem_singleton.mp hl]
    exact length_rule _ _ _ _ _

end Table

theorem Field.name_injective : Function.Injective Field.name := by
  have hmem (f : Field) : f ∈ Config.nonnegativeFields ++ Config.positiveFields := by
    cases f <;> decide
  have hnodup : ((Config.nonnegativeFields ++ Config.positiveFields).map name).Nodup := by decide
  exact fun f g => List.inj_on_of_nodup_map hnodup (hmem f) (hmem g)

def ConfigFault.field? {α : Type} : ConfigFault α → Option Field
  | notNonnegative f _ | notPositive f _ => some f
  | _ => none

theorem Field.blank_notMem_name (f : Field) : ' ' ∉ f.name.toList := by
  cases f <;> decide

theorem ConfigFault.takeWhile_message {a : ConfigFault Float} {f : Field} (h : a.field? = some f) :
    a.message.toList.takeWhile (· ≠ ' ') = f.name.toList := by
  have hword (rest : List Char) : (f.name.toList ++ ' ' :: rest).takeWhile (· ≠ ' ') =
      f.name.toList := by
    rw [List.takeWhile_append_of_pos fun c hc => ?_, List.takeWhile_cons_of_neg (by simp),
      List.append_nil]
    exact decide_eq_true fun heq => f.blank_notMem_name (heq ▸ hc)
  cases a with
  | notNonnegative g v =>
    have hblank : " must be a finite non-negative number, got ".toList =
        ' ' :: "must be a finite non-negative number, got ".toList := rfl
    obtain rfl : g = f := Option.some.inj h
    unfold message
    dsimp only
    rw [String.append_assoc, String.toList_append, String.toList_append, hblank,
      List.cons_append, hword]
  | notPositive g v =>
    have hblank : " must be a finite positive number, got ".toList =
        ' ' :: "must be a finite positive number, got ".toList := rfl
    obtain rfl : g = f := Option.some.inj h
    unfold message
    dsimp only
    rw [String.append_assoc, String.toList_append, String.toList_append, hblank,
      List.cons_append, hword]
  | _ => cases h

theorem ConfigFault.field_eq_of_message {a b : ConfigFault Float} {f g : Field}
    (ha : a.field? = some f) (hb : b.field? = some g) (h : a.message = b.message) : f = g := by
  refine Field.name_injective (String.toList_inj.mp ?_)
  rw [← takeWhile_message ha, ← takeWhile_message hb, h]

end LeastSquares
