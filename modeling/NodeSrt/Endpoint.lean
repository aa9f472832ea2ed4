import NodeSrt.NativeSrt
import NodeSrt.Numbers
import NodeSrt.SockFlags

/-! # The endpoint of `bind` and `connect`

`NodeSRT::Bind` and `NodeSRT::Connect` with the socket address they fill in, for every string
and every number. A port goes from a double to 32 and then to 16 bits. -/
namespace Endpoint

open AsyncValues
open NativeSrt
open Numbers
open SockFlags

/-! ## inet_pton -/

def decimal (digits : Bytes) : ℕ := digits.foldl (fun x b => x * 10 + (b.toNat - 48)) 0

/-- One to three digits, at most 255, and no zero before another digit. -/
def octet (part : Bytes) : Option UInt8 :=
  if 1 ≤ part.length ∧ part.length ≤ 3 ∧ part.all (fun b => 48 ≤ b.toNat ∧ b.toNat ≤ 57) ∧
    (part.head? = some 48 → part.length = 1) ∧ decimal part ≤ 255 then
    some (UInt8.ofNat (decimal part))
  else none

def dottedQuad (text : Bytes) : Option Bytes :=
  match text.splitOn 46 with
  | [a, b, c, d] => do return [← octet a, ← octet b, ← octet c, ← octet d]
  | _ => none

/-- `c_str()`: what reads it stops at the first NUL. -/
def cStr (text : Bytes) : Bytes := text.takeWhile (· ≠ 0)

/-- `inet_pton(AF_INET, std::string(address).c_str(), &addr.sin_addr)`, with the bytes it writes
if it returns 1. -/
def inetPton (address : JSString) : Option Bytes := dottedQuad (cStr (stdString address))

example : inetPton (ascii "10.0.2.255") = some [10, 0, 2, 255] ∧
    inetPton (ascii "01.2.3.4") = none := by decide

theorem digits_of_octet {part : Bytes} {x : UInt8} (h : octet part = some x) :
    ∀ b ∈ part, 48 ≤ b.toNat := by
  unfold octet at h
  split at h
  · rename_i hpart
    exact fun b hb => (of_decide_eq_true (List.all_eq_true.mp hpart.2.2.1 b hb)).1
  · cases h

theorem cStr_of_dottedQuad {text addr : Bytes} (h : dottedQuad text = some addr) :
    cStr text = text := by
  unfold dottedQuad at h
  split at h
  · rename_i a b c d hsplit
    have htext : [46].intercalate (text.splitOn 46) = text := List.intercalate_splitOn 46
    rw [hsplit] at htext
    simp only [Option.bind_eq_bind, Option.bind_eq_some_iff] at h
    obtain ⟨_, ha, _, hb, _, hc, _, hd, -⟩ := h
    have hbyte : ∀ x ∈ text, x ≠ 0 := by
      intro x hx he
      subst he
      rw [← htext] at hx
      have hzero : (0 : UInt8).toNat = 0 := rfl
      have hno : ∀ {part : Bytes} {y : UInt8}, octet part = some y → 0 ∉ part :=
        fun hp hmem => by simpa [hzero] using digits_of_octet hp 0 hmem
      simp [List.intercalate, hno ha, hno hb, hno hc, hno hd] at hx
    rw [cStr, List.takeWhile_eq_self_iff]
    simpa using hbyte
  · cases h

/-! ## node-srt.cc -/

structure SockaddrIn where
  sin_family : ℕ
  sin_port : Bytes
  sin_addr : Bytes
  deriving DecidableEq, Repr

def AF_INET : ℕ := 2

def htons (hostshort : UInt16) : Bytes :=
  [UInt8.ofNat (hostshort.toNat / 256), UInt8.ofNat (hostshort.toNat % 256)]

/-- The address as it is zeroed and filled in. `inet_pton` may leave it untouched. -/
def sockaddr (port : JSNumber) (sin_addr : Option Bytes) : SockaddrIn :=
  ⟨AF_INET, htons port.toUint32.toUInt16, sin_addr.getD [0, 0, 0, 0]⟩

inductive Call where
  | bind (u : ℤ) (addr : SockaddrIn)
  | connect (u : ℤ) (addr : SockaddrIn)
  | close (u : ℤ)
  deriving DecidableEq, Repr

def Call.addr? : Call → Option SockaddrIn
  | .bind _ addr | .connect _ addr => some addr
  | .close _ => none

structure SockLib (σ : Type*) where
  run : σ → Call → σ × ℤ
  getlasterrorStr : σ → JSString

variable {σ ω : Type*}

namespace SockLib

def runOrClose (lib : SockLib σ) (n : σ) (socketId : ℤ) (c : Call) : σ × Outcome :=
  let r := lib.run n c
  if r.2 = SRT_ERROR then
    let m := (lib.run r.1 (.close socketId)).1
    (m, .error ⟨lib.getlasterrorStr m⟩)
  else (r.1, .ok (.number r.2))

def bind (lib : SockLib σ) (n : σ) (socketId : ℤ) (address : JSString) (port : JSNumber) :
    σ × Outcome :=
  let result := inetPton address
  if result = none then (n, .error ⟨ascii "Failed to init addr.sin_addr"⟩)
  else lib.runOrClose n socketId (.bind socketId (sockaddr port result))

def connect (lib : SockLib σ) (n : σ) (socketId : ℤ) (host : JSString) (port : JSNumber) :
    σ × Outcome :=
  lib.runOrClose n socketId (.connect socketId (sockaddr port (inetPton host)))

/-- The library, with the calls it has been given. -/
def recording (lib : SockLib σ) : SockLib (σ × List Call) where
  run n c := (((lib.run n.1 c).1, n.2 ++ [c]), (lib.run n.1 c).2)
  getlasterrorStr n := lib.getlasterrorStr n.1

end SockLib

/-! ## The endpoint that is used -/

/-- A dotted quad, and an integer of 16 bits. -/
def Valid (address : JSString) (port : JSNumber) : Prop :=
  (dottedQuad (stdString address)).isSome ∧ ∃ p : ℕ, p < 2 ^ 16 ∧ port = .finite p

/-- Only this endpoint is passed to the library, and only if it is one. -/
structure ExactEndpoint (address : JSString) (port : JSNumber) (r : (σ × List Call) × Outcome) :
    Prop where
  exact : ∀ c ∈ r.1.2, ∀ addr, c.addr? = some addr → ∃ quad, ∃ p : ℕ,
    dottedQuad (stdString address) = some quad ∧ p < 2 ^ 16 ∧ port = .finite p ∧
      addr = ⟨AF_INET, [UInt8.ofNat (p / 256), UInt8.ofNat (p % 256)], quad⟩
  refused : ¬ Valid address port →
    (∀ c ∈ r.1.2, c.addr? = none) ∧ ∃ err, r.2 = .error err

theorem inetPton_of_dottedQuad {address : JSString} {quad : Bytes}
    (h : dottedQuad (stdString address) = some quad) : inetPton address = some quad := by
  rw [inetPton, cStr_of_dottedQuad h, h]

theorem htons_of_valid {p : ℕ} (h : p < 2 ^ 16) :
    htons (JSNumber.finite p).toUint32.toUInt16 =
      [UInt8.ofNat (p / 256), UInt8.ofNat (p % 256)] := by
  have hport : (JSNumber.finite p).toUint32.toUInt16.toNat = p := by
    rw [UInt32.toNat_toUInt16, JSNumber.toUint32_natCast (by omega), Nat.mod_eq_of_lt h]
  rw [htons, hport]

/-- A wrapper that calls the library with this address is right for valid endpoints only. -/
theorem exact_runOrClose_iff {address : JSString} {port : JSNumber} {c : Call}
    (hc : c.addr? = some (sockaddr port (inetPton address))) (lib : SockLib σ) (n : σ)
    (socketId : ℤ) :
    ExactEndpoint address port (lib.recording.runOrClose (n, []) socketId c) ↔
      Valid address port := by
  have hcalls : ∃ cs, (∀ c' ∈ cs, Call.addr? c' = none) ∧
      (lib.recording.runOrClose (n, []) socketId c).1.2 = c :: cs := by
    by_cases hfails : (lib.run n c).2 = SRT_ERROR
    · exact ⟨[.close socketId], by simp [Call.addr?],
        by simp [SockLib.runOrClose, SockLib.recording, hfails]⟩
    · exact ⟨[], by simp, by simp [SockLib.runOrClose, SockLib.recording, hfails]⟩
  obtain ⟨cs, hcs, hcalls⟩ := hcalls
  constructor
  · intro h
    by_contra hn
    have hnone := (h.refused hn).1 c (hcalls ▸ List.mem_cons_self)
    rw [hc] at hnone
    cases hnone
  · rintro hvalid
    refine ⟨fun c' hc' addr haddr => ?_, fun hn => absurd hvalid hn⟩
    obtain ⟨hquad, p, hp, rfl⟩ := hvalid
    obtain ⟨quad, hquad⟩ := Option.isSome_iff_exists.mp hquad
    refine ⟨quad, p, hquad, hp, rfl, ?_⟩
    rw [hcalls] at hc'
    rcases List.mem_cons.mp hc' with rfl | hmem
    · rw [hc] at haddr
      rw [← Option.some.inj haddr, sockaddr, htons_of_valid hp, inetPton_of_dottedQuad hquad]
      rfl
    · rw [hcs c' hmem] at haddr
      cases haddr

/-- `Bind` is right for valid endpoints and where `inet_pton` refuses the address as far as its
first NUL; `Connect`, which does not look at that result, is right for valid endpoints only. -/
theorem exact_endpoint_iff (lib : SockLib σ) (n : σ) (socketId : ℤ) (address : JSString)
    (port : JSNumber) :
    (ExactEndpoint address port (lib.recording.bind (n, []) socketId address port) ↔
      dottedQuad (cStr (stdString address)) = none ∨ Valid address port) ∧
    (ExactEndpoint address port (lib.recording.connect (n, []) socketId address port) ↔
      Valid address port) := by
  refine ⟨?_, exact_runOrClose_iff rfl lib n socketId⟩
  by_cases hnone : inetPton address = none
  · refine iff_of_true ?_ (Or.inl hnone)
    simp only [SockLib.bind, if_pos hnone]
    exact ⟨by simp, fun _ => ⟨by simp, _, rfl⟩⟩
  · have hrun : lib.recording.bind (n, []) socketId address port =
        lib.recording.runOrClose (n, []) socketId
          (.bind socketId (sockaddr port (inetPton address))) := if_neg hnone
    rw [hrun, exact_runOrClose_iff rfl]
    exact (or_iff_right hnone).symm

def takingLib : SockLib Unit where
  run _ _ := ((), 0)
  getlasterrorStr _ := []

/-- Port 65616 is bound as port 80, and a name is connected to as 0.0.0.0. -/
theorem endpoint_is_changed :
    (¬ ∀ (lib : SockLib Unit) n socketId address port,
      ExactEndpoint address port (lib.recording.bind (n, []) socketId address port)) ∧
    ¬ ∀ (lib : SockLib Unit) n socketId address port,
      ExactEndpoint address port (lib.recording.connect (n, []) socketId address port) := by
  constructor
  · intro h
    have hbad := (h takingLib () 1 (ascii "127.0.0.1") (.finite 65616)).exact
      (.bind 1 ⟨AF_INET, [0, 80], [127, 0, 0, 1]⟩) (by decide +kernel) _ rfl
    obtain ⟨_, p, -, hp, hport, -⟩ := hbad
    have hval : (65616 : ℚ) = p := JSNumber.finite.inj hport
    have hnat : p = 65616 := by exact_mod_cast hval.symm
    omega
  · intro h
    have hbad := (h takingLib () 1 (ascii "localhost") (.finite 80)).exact
      (.connect 1 ⟨AF_INET, [0, 80], [0, 0, 0, 0]⟩) (by decide +kernel) _ rfl
    obtain ⟨_, _, hquad, -⟩ := hbad
    exact absurd hquad (by simp [show dottedQuad (stdString (ascii "localhost")) = none by decide])

/-! ## The library of the other results -/

/-- Integers for the address and the port, as the wrappers of `NativeSrt` pass them. -/
def ofBigEndian (b : Bytes) : ℤ := b.foldl (fun x b => x * 256 + b.toNat) 0

def ofLibsrt (lib : Libsrt σ ω) : SockLib σ where
  run n c :=
    let r := lib.run n (match c with
      | .bind u addr => .bind u (ofBigEndian addr.sin_addr) (ofBigEndian addr.sin_port)
      | .connect u addr => .connect u (ofBigEndian addr.sin_addr) (ofBigEndian addr.sin_port)
      | .close u => .close u)
    (r.1, r.2.value)
  getlasterrorStr := lib.getlasterrorStr

theorem ofBigEndian_port {p : ℕ} (h : p < 2 ^ 16) :
    ofBigEndian (htons (JSNumber.finite p).toUint32.toUInt16) = p := by
  rw [htons_of_valid h]
  simp only [ofBigEndian, List.foldl_cons, List.foldl_nil, UInt8.toNat_ofNat']
  omega

/-- For ports of 16 bits the wrappers are those of `NativeSrt`. -/
theorem wrappers_agree (lib : Libsrt σ ω)
    (h : ∀ address, lib.inetPton address = (inetPton address).map ofBigEndian) (n : σ)
    (socketId : ℤ) (address : JSString) {p : ℕ} (hp : p < 2 ^ 16) :
    (ofLibsrt lib).bind n socketId address (.finite p) = lib.bind n socketId address p ∧
    (ofLibsrt lib).connect n socketId address (.finite p) = lib.connect n socketId address p := by
  have hport := ofBigEndian_port hp
  constructor
  · cases hpton : inetPton address with
    | none => simp [SockLib.bind, Libsrt.bind, h, hpton]
    | some quad =>
      simp [SockLib.bind, SockLib.runOrClose, Libsrt.bind, Libsrt.runOrClose, Libsrt.throwLast,
        ofLibsrt, h, hpton, hport, sockaddr]
  · have hzero : ofBigEndian [0, 0, 0, 0] = 0 := rfl
    cases hpton : inetPton address <;>
      simp [SockLib.connect, SockLib.runOrClose, Libsrt.connect, Libsrt.runOrClose,
        Libsrt.throwLast, ofLibsrt, h, hpton, hport, hzero, sockaddr]

end Endpoint
