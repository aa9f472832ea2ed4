import NodeSrt.AsyncApiSteps
import NodeSrt.SockFlags

/-! # The check of a passphrase

`AsyncSRT.setSockFlag` counts the code units of a passphrase, and libsrt the bytes of its
UTF-8 encoding, which `SetSockFlag` hands over. -/
namespace Passphrase

open AsyncValues
open AsyncApi
open SockFlags
open Encodings

/-! ## How long a text is in UTF-8 -/

theorem length_utf8 (c : Char) :
    (utf8 c).length = if c.toNat < 0x80 then 1 else if c.toNat < 0x800 then 2
      else if c.toNat < 0x10000 then 3 else 4 := by
  unfold utf8
  dsimp only
  split_ifs <;> rfl

theorem toNat_ofNat_le (n : ℕ) : (Char.ofNat n).toNat ≤ n := by
  by_cases h : n.isValidChar
  · rw [Char.ofNat, dif_pos h]
    exact le_rfl
  · rw [Char.ofNat, dif_neg h]
    exact Nat.zero_le n

theorem length_utf8_unit (u : UInt16) (b : Bool) :
    1 ≤ (utf8 (if b then replacement else Char.ofNat u.toNat)).length ∧
      (utf8 (if b then replacement else Char.ofNat u.toNat)).length ≤ 3 := by
  cases b with
  | true =>
    rw [if_pos rfl]
    decide
  | false =>
    have hle := toNat_ofNat_le u.toNat
    have hlt := u.toNat_lt
    simp only [Bool.false_eq_true, if_false, length_utf8]
    split_ifs <;> omega

theorem length_utf8_pair {u l : UInt16} (hh : isHigh u = true) (hl : isLow l = true) :
    (utf8 (Char.ofNat (0x10000 + (u.toNat - 0xD800) * 0x400 + (l.toNat - 0xDC00)))).length = 4 := by
  simp only [isHigh, isLow, Bool.and_eq_true, decide_eq_true_eq] at hh hl
  rw [length_utf8, toNat_ofNat (by omega), if_neg (by omega), if_neg (by omega),
    if_neg (by omega)]

theorem length_stdString (v : JSString) :
    v.length ≤ (stdString v).length ∧ (stdString v).length ≤ 3 * v.length := by
  unfold stdString
  fun_induction chars v with
  | case1 => exact ⟨le_rfl, le_rfl⟩
  | case2 u =>
    have hu := length_utf8_unit u (isHigh u || isLow u)
    simpa using hu
  | case3 u l rest hh hl ih =>
    have hpair := length_utf8_pair hh hl
    simp only [List.flatMap_cons, List.length_append, List.length_cons, hpair]
    omega
  | case4 u l rest hh hl ih =>
    have hu := length_utf8_unit u true
    simp only [if_true] at hu
    simp only [List.flatMap_cons, List.length_append, List.length_cons] at ih ⊢
    omega
  | case5 u l rest hh ih =>
    have hu := length_utf8_unit u (isLow u)
    simp only [List.flatMap_cons, List.length_append, List.length_cons] at ih ⊢
    omega

/-! ## The check and the library -/

/-- The lengths in bytes libsrt accepts for `SRTO_PASSPHRASE`. -/
def AcceptsLength (bytes : ℕ) : Prop := bytes = 0 ∨ 10 ≤ bytes ∧ bytes ≤ 79

instance (bytes : ℕ) : Decidable (AcceptsLength bytes) := inferInstanceAs (Decidable (_ ∨ _ ∧ _))

variable {σ κ : Type*}

def TakesPassphrases (lib : OptionLib σ) : Prop :=
  ∀ n u b, (lib.setsockflag n u SRTO_PASSPHRASE b).2 ≠ SRT_ERROR ↔ AcceptsLength b.length

/-- The native setter throws for the passphrases whose bytes libsrt does not accept. -/
theorem native_throws_iff {lib : OptionLib σ} (h : TakesPassphrases lib) (n : σ) (u : ℤ)
    (v : JSString) : (∃ err, (lib.setSockFlag n u SRTO_PASSPHRASE (.string v)).2 = .error err) ↔
      ¬ AcceptsLength (stdString v).length := by
  rw [← h n u, not_not]
  simp only [OptionLib.setSockFlag, OptionLib.setOrThrow]
  split <;> simp_all

/-- `setSockFlag(socket, SRTO_PASSPHRASE, value)` throws its validation error. -/
def ThrowsInvalid (s : AsyncSRT κ) (socket : JSValue) (v : JSString) (callback : Bool)
    (waiter : κ) : Prop :=
  (s.apiCall (.setSockFlag socket (.number SRTO_PASSPHRASE) (.string v)) callback waiter).2 =
    .threw (.invalidPassphrase (.string v))

theorem throwsInvalid_iff (s : AsyncSRT κ) (socket : JSValue) (v : JSString) (callback : Bool)
    (waiter : κ) : ThrowsInvalid s socket v callback waiter ↔ ¬ AcceptsLength v.length := by
  have hvalid : validPassphrase (.string v) = false ↔ ¬ AcceptsLength v.length := by
    simp [validPassphrase, AcceptsLength]
  rw [← hvalid]
  constructor
  · intro h
    by_contra hv
    have he : (ApiCall.setSockFlag socket (.number SRTO_PASSPHRASE) (.string v)).earlyError =
        none := by simp [ApiCall.earlyError, hv]
    rw [ThrowsInvalid] at h
    rcases call_cases s (.setSockFlag socket (.number SRTO_PASSPHRASE) (.string v)) with
      hc | hc | hc | hc
    · obtain ⟨n, e⟩ := apiCall_of_early hc callback waiter
      simp only [e, AsyncSRT.earlyReturn, he, undefinedError] at h
      split_ifs at h <;> simp at h
    · simp [apiCall_of_accepts hc] at h
    · simp [apiCall_of_throws hc] at h
    · simp [apiCall_of_untraced hc] at h
  · intro hv
    simp [ThrowsInvalid, AsyncSRT.apiCall, ApiCall.earlyError, passphraseError, concatText, hv]

/-- The check and libsrt agree on a passphrase if and only if its code units and its bytes are
on the same side of both limits. -/
theorem check_agrees_iff (s : AsyncSRT κ) (socket : JSValue) (v : JSString) (callback : Bool)
    (waiter : κ) :
    (ThrowsInvalid s socket v callback waiter ↔ ¬ AcceptsLength (stdString v).length) ↔
      (v.length < 10 ↔ (stdString v).length < 10) ∧
        (v.length < 80 ↔ (stdString v).length < 80) := by
  obtain ⟨hle, hge⟩ := length_stdString v
  rw [throwsInvalid_iff, not_iff_not]
  unfold AcceptsLength
  omega

/-- Five letters of two bytes each: the check refuses what libsrt takes. -/
theorem check_disagrees :
    ¬ ∀ (s : AsyncSRT Unit) socket v callback waiter,
      ThrowsInvalid s socket v callback waiter ↔ ¬ AcceptsLength (stdString v).length := by
  intro h
  have hthrow : ThrowsInvalid initial (.number 1) (List.replicate 5 0xE9) false () := by
    unfold ThrowsInvalid
    decide
  exact (h initial (.number 1) (List.replicate 5 0xE9) false ()).mp hthrow (by decide)

end Passphrase
