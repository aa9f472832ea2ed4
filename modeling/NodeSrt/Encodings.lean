import Mathlib.Algebra.Order.Ring.Int
import Mathlib.Data.List.TakeWhile
import Mathlib.Data.Nat.Digits.Defs
import Mathlib.Tactic.Ring

/-! # Integers and text as bytes

Integers in little-endian two's complement, and text in UTF-16 and UTF-8. A surrogate without
its partner becomes the replacement character, and so does, in bytes that are not UTF-8, every
maximal start of a sequence. -/
namespace Encodings

/-! ## Integers -/

/-- The `w` bytes an integer is stored in; higher bits are lost. -/
def toBytes : ℕ → ℤ → List UInt8
  | 0, _ => []
  | w + 1, x => UInt8.ofNat (x % 256).toNat :: toBytes w (x / 256)

/-- The signed integer that bytes hold. -/
def ofBytes (b : List UInt8) : ℤ :=
  Int.bmod ((Nat.ofDigits 256 (b.map UInt8.toNat) : ℕ) : ℤ) (256 ^ b.length)

@[simp] theorem length_toBytes (w : ℕ) (x : ℤ) : (toBytes w x).length = w := by
  induction w generalizing x with
  | zero => rfl
  | succ w ih => simp [toBytes, ih]

theorem ofDigits_toBytes (w : ℕ) (x : ℤ) :
    ((Nat.ofDigits 256 ((toBytes w x).map UInt8.toNat) : ℕ) : ℤ) = x % 256 ^ w := by
  induction w generalizing x with
  | zero => simp [toBytes]
  | succ w ih =>
    have hbyte : ((UInt8.ofNat (x % 256).toNat).toNat : ℤ) = x % 256 := by
      rw [UInt8.toNat_ofNat']
      omega
    rw [toBytes, List.map_cons, Nat.ofDigits_cons, Nat.cast_add, Nat.cast_mul, ih, hbyte, pow_succ',
      Int.emod_def x (256 * _), ← Int.ediv_ediv_of_nonneg (by decide), Int.emod_def x,
      Int.emod_def (x / 256)]
    push_cast
    ring

theorem ofBytes_toBytes (w : ℕ) (x : ℤ) : ofBytes (toBytes w x) = x.bmod (256 ^ w) := by
  rw [ofBytes, ofDigits_toBytes, length_toBytes]
  exact_mod_cast Int.emod_bmod x (256 ^ w)

theorem ofBytes_toBytes_of_fits {w : ℕ} {x : ℤ} (hlo : -256 ^ w ≤ x * 2) (hhi : x * 2 < 256 ^ w) :
    ofBytes (toBytes w x) = x := by
  rw [ofBytes_toBytes]
  exact Int.bmod_eq_of_le_mul_two (by exact_mod_cast hlo) (by exact_mod_cast hhi)

/-! ## UTF-16 -/

def replacement : Char := Char.ofNat 0xFFFD

def isHigh (u : UInt16) : Bool := 0xD800 ≤ u.toNat && u.toNat < 0xDC00

def isLow (u : UInt16) : Bool := 0xDC00 ≤ u.toNat && u.toNat < 0xE000

def chars : List UInt16 → List Char
  | [] => []
  | [u] => [if isHigh u || isLow u then replacement else Char.ofNat u.toNat]
  | u :: l :: rest =>
    if isHigh u then
      if isLow l then
        Char.ofNat (0x10000 + (u.toNat - 0xD800) * 0x400 + (l.toNat - 0xDC00)) :: chars rest
      else replacement :: chars (l :: rest)
    else (if isLow u then replacement else Char.ofNat u.toNat) :: chars (l :: rest)

/-- Every surrogate has its partner. -/
def WellFormed : List UInt16 → Bool
  | [] => true
  | [u] => !isHigh u && !isLow u
  | u :: l :: rest =>
    if isHigh u then isLow l && WellFormed rest else !isLow u && WellFormed (l :: rest)

def units (c : Char) : List UInt16 :=
  if c.toNat < 0x10000 then [UInt16.ofNat c.toNat]
  else [UInt16.ofNat (0xD800 + (c.toNat - 0x10000) / 0x400),
    UInt16.ofNat (0xDC00 + (c.toNat - 0x10000) % 0x400)]

theorem toNat_cases (c : Char) :
    c.toNat < 0xD800 ∨ 0xDFFF < c.toNat ∧ c.toNat < 0x110000 := c.valid

theorem units_cases (c : Char) :
    (∃ u, units c = [u] ∧ isHigh u = false ∧ isLow u = false ∧ u.toNat = c.toNat) ∨
    ∃ u l, units c = [u, l] ∧ isHigh u = true ∧ isLow l = true ∧
      0x10000 + (u.toNat - 0xD800) * 0x400 + (l.toNat - 0xDC00) = c.toNat := by
  have hc := toNat_cases c
  unfold units
  split
  · left
    have hu : (UInt16.ofNat c.toNat).toNat = c.toNat := by
      rw [UInt16.toNat_ofNat']
      omega
    refine ⟨_, rfl, ?_, ?_, hu⟩
    · simp only [isHigh, hu, Bool.and_eq_false_iff, decide_eq_false_iff_not]
      omega
    · simp only [isLow, hu, Bool.and_eq_false_iff, decide_eq_false_iff_not]
      omega
  · right
    have hu : (UInt16.ofNat (0xD800 + (c.toNat - 0x10000) / 0x400)).toNat =
        0xD800 + (c.toNat - 0x10000) / 0x400 := by
      rw [UInt16.toNat_ofNat']
      omega
    have hl : (UInt16.ofNat (0xDC00 + (c.toNat - 0x10000) % 0x400)).toNat =
        0xDC00 + (c.toNat - 0x10000) % 0x400 := by
      rw [UInt16.toNat_ofNat']
      omega
    refine ⟨_, _, rfl, ?_, ?_, ?_⟩
    · simp only [isHigh, hu, Bool.and_eq_true, decide_eq_true_eq]
      omega
    · simp only [isLow, hl, Bool.and_eq_true, decide_eq_true_eq]
      omega
    · rw [hu, hl]
      omega

theorem wellFormed_cons {u : UInt16} (hh : isHigh u = false) (hl : isLow u = false)
    (rest : List UInt16) : WellFormed (u :: rest) = WellFormed rest := by
  cases rest <;> simp [WellFormed, hh, hl]

theorem wellFormed_units (c : Char) (rest : List UInt16) :
    WellFormed (units c ++ rest) = WellFormed rest := by
  rcases units_cases c with ⟨u, e, hh, hl, -⟩ | ⟨u, l, e, hh, hl, -⟩
  · rw [e, List.singleton_append, wellFormed_cons hh hl]
  · rw [e]
    simp [WellFormed, hh, hl]

theorem wellFormed_flatMap_units (cs : List Char) : WellFormed (cs.flatMap units) = true := by
  induction cs with
  | nil => rfl
  | cons c cs ih => rw [List.flatMap_cons, wellFormed_units, ih]

theorem toNat_ofNat {n : ℕ} (h : n < 0xD800 ∨ 0xDFFF < n ∧ n < 0x110000) :
    (Char.ofNat n).toNat = n := by
  have hvalid : n.isValidChar := h
  rw [Char.ofNat, dif_pos hvalid]
  rfl

theorem flatMap_units_chars {s : List UInt16} (h : WellFormed s = true) :
    (chars s).flatMap units = s := by
  have single : ∀ {u : UInt16}, isHigh u = false → isLow u = false →
      units (Char.ofNat u.toNat) = [u] := by
    intro u hh hl
    simp only [isHigh, isLow, Bool.and_eq_false_iff, decide_eq_false_iff_not] at hh hl
    have hlt := u.toNat_lt
    have hu := toNat_ofNat (n := u.toNat) (by omega)
    rw [units, hu, if_pos (by omega), UInt16.ofNat_toNat]
  fun_induction chars s with
  | case1 => rfl
  | case2 u =>
    simp only [WellFormed, Bool.and_eq_true, Bool.not_eq_true'] at h
    simp [h, single h.1 h.2]
  | case3 u l rest hh hl ih =>
    simp only [WellFormed, hh, hl, if_true, Bool.true_and] at h
    rw [List.flatMap_cons, ih h]
    simp only [isHigh, isLow, Bool.and_eq_true, decide_eq_true_eq] at hh hl
    rw [units, toNat_ofNat (by omega), if_neg (by omega)]
    have hu : (0x10000 + (u.toNat - 0xD800) * 0x400 + (l.toNat - 0xDC00) - 0x10000) / 0x400 =
        u.toNat - 0xD800 := by omega
    have hl' : (0x10000 + (u.toNat - 0xD800) * 0x400 + (l.toNat - 0xDC00) - 0x10000) % 0x400 =
        l.toNat - 0xDC00 := by omega
    rw [hu, hl', Nat.add_sub_cancel' hh.1, Nat.add_sub_cancel' hl.1, UInt16.ofNat_toNat,
      UInt16.ofNat_toNat]
    rfl
  | case4 u l rest hh hl ih => simp [WellFormed, hh, hl] at h
  | case5 u l rest hh ih =>
    have hh : isHigh u = false := by simpa using hh
    simp only [WellFormed, hh, Bool.false_eq_true, if_false, Bool.and_eq_true,
      Bool.not_eq_true'] at h
    rw [List.flatMap_cons, ih h.2, if_neg (by simp [h.1]), single hh h.1]
    rfl

/-! ## UTF-8 -/

def utf8 (c : Char) : List UInt8 :=
  let n := c.toNat
  if n < 0x80 then [UInt8.ofNat n]
  else if n < 0x800 then [UInt8.ofNat (0xC0 + n / 0x40), UInt8.ofNat (0x80 + n % 0x40)]
  else if n < 0x10000 then
    [UInt8.ofNat (0xE0 + n / 0x1000), UInt8.ofNat (0x80 + n / 0x40 % 0x40),
      UInt8.ofNat (0x80 + n % 0x40)]
  else
    [UInt8.ofNat (0xF0 + n / 0x40000), UInt8.ofNat (0x80 + n / 0x1000 % 0x40),
      UInt8.ofNat (0x80 + n / 0x40 % 0x40), UInt8.ofNat (0x80 + n % 0x40)]

/-- How many bytes a sequence still needs, between which bounds the next one lies, and the bits
that have been read. -/
structure Pending where
  needed : ℕ
  lower : ℕ
  upper : ℕ
  code : ℕ

def first (b : ℕ) : Pending × List Char :=
  if b < 0x80 then (⟨0, 0, 0, 0⟩, [Char.ofNat b])
  else if 0xC2 ≤ b ∧ b ≤ 0xDF then (⟨1, 0x80, 0xBF, b - 0xC0⟩, [])
  else if 0xE0 ≤ b ∧ b ≤ 0xEF then
    (⟨2, if b = 0xE0 then 0xA0 else 0x80, if b = 0xED then 0x9F else 0xBF, b - 0xE0⟩, [])
  else if 0xF0 ≤ b ∧ b ≤ 0xF4 then
    (⟨3, if b = 0xF0 then 0x90 else 0x80, if b = 0xF4 then 0x8F else 0xBF, b - 0xF0⟩, [])
  else (⟨0, 0, 0, 0⟩, [replacement])

/-- A byte that cannot go on with the sequence ends it and is read again as a first one. -/
def step (p : Pending) (b : ℕ) : Pending × List Char :=
  if p.needed = 0 then first b
  else if p.lower ≤ b ∧ b ≤ p.upper then
    let code := p.code * 0x40 + b % 0x40
    if p.needed = 1 then (⟨0, 0, 0, 0⟩, [Char.ofNat code])
    else (⟨p.needed - 1, 0x80, 0xBF, code⟩, [])
  else ((first b).1, replacement :: (first b).2)

def decodeFrom : Pending → List UInt8 → List Char
  | p, [] => if p.needed = 0 then [] else [replacement]
  | p, b :: rest => (step p b.toNat).2 ++ decodeFrom (step p b.toNat).1 rest

def decodeUtf8 (b : List UInt8) : List Char := decodeFrom ⟨0, 0, 0, 0⟩ b

/-! A sequence is read byte by byte. -/

variable {b : UInt8} {k : ℕ} {p : Pending} {rest : List UInt8}

theorem decodeUtf8_two (h : 0xC2 ≤ b.toNat ∧ b.toNat ≤ 0xDF) :
    decodeUtf8 (b :: rest) = decodeFrom ⟨1, 0x80, 0xBF, b.toNat - 0xC0⟩ rest := by
  simp only [decodeUtf8, decodeFrom, step, first, if_true]
  rw [if_neg (by omega), if_pos h]
  rfl

theorem decodeUtf8_three (h : 0xE0 ≤ b.toNat ∧ b.toNat ≤ 0xEF) :
    decodeUtf8 (b :: rest) = decodeFrom ⟨2, if b.toNat = 0xE0 then 0xA0 else 0x80,
      if b.toNat = 0xED then 0x9F else 0xBF, b.toNat - 0xE0⟩ rest := by
  simp only [decodeUtf8, decodeFrom, step, first, if_true]
  rw [if_neg (by omega), if_neg (by omega), if_pos h]
  rfl

theorem decodeUtf8_four (h : 0xF0 ≤ b.toNat ∧ b.toNat ≤ 0xF4) :
    decodeUtf8 (b :: rest) = decodeFrom ⟨3, if b.toNat = 0xF0 then 0x90 else 0x80,
      if b.toNat = 0xF4 then 0x8F else 0xBF, b.toNat - 0xF0⟩ rest := by
  simp only [decodeUtf8, decodeFrom, step, first, if_true]
  rw [if_neg (by omega), if_neg (by omega), if_neg (by omega), if_pos h]
  rfl

theorem decodeFrom_more (hn : p.needed = k + 2) (h : p.lower ≤ b.toNat ∧ b.toNat ≤ p.upper) :
    decodeFrom p (b :: rest) =
      decodeFrom ⟨k + 1, 0x80, 0xBF, p.code * 0x40 + b.toNat % 0x40⟩ rest := by
  simp [decodeFrom, step, hn, h]

theorem decodeFrom_last (hn : p.needed = 1) (h : p.lower ≤ b.toNat ∧ b.toNat ≤ p.upper) :
    decodeFrom p (b :: rest) =
      Char.ofNat (p.code * 0x40 + b.toNat % 0x40) :: decodeUtf8 rest := by
  simp [decodeUtf8, decodeFrom, step, hn, h]

theorem decodeUtf8_utf8 (c : Char) (rest : List UInt8) :
    decodeUtf8 (utf8 c ++ rest) = c :: decodeUtf8 rest := by
  have hc := toNat_cases c
  have hchar := Char.ofNat_toNat c
  have hbyte : ∀ {n : ℕ}, n < 256 → (UInt8.ofNat n).toNat = n := by
    intro n hn
    rw [UInt8.toNat_ofNat']
    omega
  unfold utf8
  dsimp only
  generalize c.toNat = n at *
  subst hchar
  split
  · simp [decodeUtf8, decodeFrom, step, first, hbyte (n := n) (by omega), ‹n < 0x80›]
  split
  · have h0 := hbyte (n := 0xC0 + n / 0x40) (by omega)
    have h1 := hbyte (n := 0x80 + n % 0x40) (by omega)
    simp only [List.cons_append, List.nil_append]
    rw [decodeUtf8_two (by omega), decodeFrom_last rfl (by dsimp only; omega), h0, h1]
    refine congrArg (· :: decodeUtf8 rest) (congrArg Char.ofNat ?_)
    dsimp only
    omega
  split
  · have h0 := hbyte (n := 0xE0 + n / 0x1000) (by omega)
    have h1 := hbyte (n := 0x80 + n / 0x40 % 0x40) (by omega)
    have h2 := hbyte (n := 0x80 + n % 0x40) (by omega)
    simp only [List.cons_append, List.nil_append]
    rw [decodeUtf8_three (by omega), decodeFrom_more rfl (by dsimp only; split <;> split <;> omega),
      decodeFrom_last rfl (by dsimp only; omega), h0, h1, h2]
    refine congrArg (· :: decodeUtf8 rest) (congrArg Char.ofNat ?_)
    dsimp only
    omega
  · have h0 := hbyte (n := 0xF0 + n / 0x40000) (by omega)
    have h1 := hbyte (n := 0x80 + n / 0x1000 % 0x40) (by omega)
    have h2 := hbyte (n := 0x80 + n / 0x40 % 0x40) (by omega)
    have h3 := hbyte (n := 0x80 + n % 0x40) (by omega)
    simp only [List.cons_append, List.nil_append]
    rw [decodeUtf8_four (by omega), decodeFrom_more rfl (by dsimp only; split <;> split <;> omega),
      decodeFrom_more rfl (by dsimp only; omega), decodeFrom_last rfl (by dsimp only; omega),
      h0, h1, h2, h3]
    refine congrArg (· :: decodeUtf8 rest) (congrArg Char.ofNat ?_)
    dsimp only
    omega

theorem decodeUtf8_flatMap (cs : List Char) : decodeUtf8 (cs.flatMap utf8) = cs := by
  induction cs with
  | nil => rfl
  | cons c cs ih => rw [List.flatMap_cons, decodeUtf8_utf8, ih]

/-! ## Text that ends at the first NUL -/

theorem zero_notMem_utf8 {c : Char} (h : c ≠ '\x00') : 0 ∉ utf8 c := by
  have hc := toNat_cases c
  have hne : c.toNat ≠ 0 := fun he => h (Char.toNat_inj.mp he)
  have hbyte : ∀ n, 0 < n → n < 256 → (0 : UInt8) ≠ UInt8.ofNat n := by
    intro n hpos hlt he
    have hn := congrArg UInt8.toNat he
    rw [UInt8.toNat_ofNat', Nat.mod_eq_of_lt hlt] at hn
    exact hpos.ne hn
  unfold utf8
  dsimp only
  generalize c.toNat = n at *
  split
  · simpa only [List.mem_singleton] using hbyte n (by omega) (by omega)
  split
  · simp only [List.mem_cons, List.not_mem_nil, or_false, not_or]
    exact ⟨hbyte _ (by omega) (by omega), hbyte _ (by omega) (by omega)⟩
  split
  · simp only [List.mem_cons, List.not_mem_nil, or_false, not_or]
    exact ⟨hbyte _ (by omega) (by omega), hbyte _ (by omega) (by omega),
      hbyte _ (by omega) (by omega)⟩
  · simp only [List.mem_cons, List.not_mem_nil, or_false, not_or]
    exact ⟨hbyte _ (by omega) (by omega), hbyte _ (by omega) (by omega),
      hbyte _ (by omega) (by omega), hbyte _ (by omega) (by omega)⟩

theorem takeWhile_flatMap_utf8 (cs : List Char) (rest : List UInt8) :
    (cs.flatMap utf8 ++ 0 :: rest).takeWhile (· ≠ 0) =
      (cs.takeWhile (· ≠ '\x00')).flatMap utf8 := by
  induction cs with
  | nil => simp
  | cons c cs ih =>
    by_cases hc : c = '\x00'
    · subst hc
      rfl
    · rw [List.flatMap_cons, List.append_assoc,
        List.takeWhile_append_of_pos (fun b hb => decide_eq_true (ne_of_mem_of_not_mem hb
          (zero_notMem_utf8 hc))), ih]
      simp [hc]

theorem zero_mem_units {c : Char} : 0 ∈ units c ↔ c = '\x00' := by
  constructor
  · intro h
    rw [← Char.toNat_inj]
    rcases units_cases c with ⟨u, e, -, -, hu⟩ | ⟨u, l, e, hh, hl, -⟩
    · rw [e, List.mem_singleton] at h
      rw [← hu, ← h]
      rfl
    · simp only [isHigh, isLow, Bool.and_eq_true, decide_eq_true_eq] at hh hl
      have hzero : (0 : UInt16).toNat = 0 := rfl
      rw [e, List.mem_cons, List.mem_singleton] at h
      rcases h with rfl | rfl <;> omega
  · rintro rfl
    decide

theorem zero_mem_flatMap_units {cs : List Char} : 0 ∈ cs.flatMap units ↔ '\x00' ∈ cs := by
  simp [List.mem_flatMap, zero_mem_units]

end Encodings
