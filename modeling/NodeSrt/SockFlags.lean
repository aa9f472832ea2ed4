import NodeSrt.AsyncValues
import NodeSrt.Encodings

/-! # Socket options

`SetSockFlag` and `GetSockFlag` of `node-srt.cc`, with the options that `srt-api-enums.ts`
lists. The setter chooses what it writes by the JavaScript type of the value, the getter by
the option. libsrt, which keeps the values, is a parameter. -/
namespace SockFlags

open AsyncValues
open Encodings

/-! ## srt-api-enums.ts -/

/-- `SRTSockOpt`, with two options that are commented out there but not in the getter. -/
inductive SRTSockOpt where
  | SRTO_MSS | SRTO_SNDSYN | SRTO_RCVSYN | SRTO_ISN | SRTO_FC | SRTO_SNDBUF | SRTO_RCVBUF
  | SRTO_LINGER | SRTO_UDP_SNDBUF | SRTO_UDP_RCVBUF | SRTO_RENDEZVOUS | SRTO_SNDTIMEO
  | SRTO_RCVTIMEO | SRTO_REUSEADDR | SRTO_MAXBW | SRTO_STATE | SRTO_EVENT | SRTO_SNDDATA
  | SRTO_RCVDATA | SRTO_SENDER | SRTO_TSBPDMODE | SRTO_LATENCY | SRTO_INPUTBW | SRTO_OHEADBW
  | SRTO_PASSPHRASE | SRTO_PBKEYLEN | SRTO_KMSTATE | SRTO_IPTTL | SRTO_IPTOS | SRTO_TLPKTDROP
  | SRTO_SNDDROPDELAY | SRTO_NAKREPORT | SRTO_VERSION | SRTO_PEERVERSION | SRTO_CONNTIMEO
  | SRTO_DRIFTTRACER | SRTO_MININPUTBW | SRTO_SNDKMSTATE | SRTO_RCVKMSTATE | SRTO_LOSSMAXTTL
  | SRTO_RCVLATENCY | SRTO_PEERLATENCY | SRTO_MINVERSION | SRTO_STREAMID | SRTO_CONGESTION
  | SRTO_MESSAGEAPI | SRTO_PAYLOADSIZE | SRTO_TRANSTYPE | SRTO_KMREFRESHRATE | SRTO_KMPREANNOUNCE
  | SRTO_ENFORCEDENCRYPTION | SRTO_IPV6ONLY | SRTO_PEERIDLETIMEO | SRTO_BINDTODEVICE
  | SRTO_GROUPCONNECT | SRTO_GROUPMINSTABLETIMEO | SRTO_PACKETFILTER | SRTO_RETRANSMITALGO
  | SRTO_E_SIZE
  deriving DecidableEq, Repr

def SRTSockOpt.value : SRTSockOpt → ℤ
  | .SRTO_MSS => 0 | .SRTO_SNDSYN => 1 | .SRTO_RCVSYN => 2 | .SRTO_ISN => 3 | .SRTO_FC => 4
  | .SRTO_SNDBUF => 5 | .SRTO_RCVBUF => 6 | .SRTO_LINGER => 7 | .SRTO_UDP_SNDBUF => 8
  | .SRTO_UDP_RCVBUF => 9 | .SRTO_RENDEZVOUS => 12 | .SRTO_SNDTIMEO => 13 | .SRTO_RCVTIMEO => 14
  | .SRTO_REUSEADDR => 15 | .SRTO_MAXBW => 16 | .SRTO_STATE => 17 | .SRTO_EVENT => 18
  | .SRTO_SNDDATA => 19 | .SRTO_RCVDATA => 20 | .SRTO_SENDER => 21 | .SRTO_TSBPDMODE => 22
  | .SRTO_LATENCY => 23 | .SRTO_INPUTBW => 24 | .SRTO_OHEADBW => 25 | .SRTO_PASSPHRASE => 26
  | .SRTO_PBKEYLEN => 27 | .SRTO_KMSTATE => 28 | .SRTO_IPTTL => 29 | .SRTO_IPTOS => 30
  | .SRTO_TLPKTDROP => 31 | .SRTO_SNDDROPDELAY => 32 | .SRTO_NAKREPORT => 33 | .SRTO_VERSION => 34
  | .SRTO_PEERVERSION => 35 | .SRTO_CONNTIMEO => 36 | .SRTO_DRIFTTRACER => 37
  | .SRTO_MININPUTBW => 38 | .SRTO_SNDKMSTATE => 40 | .SRTO_RCVKMSTATE => 41
  | .SRTO_LOSSMAXTTL => 42 | .SRTO_RCVLATENCY => 43 | .SRTO_PEERLATENCY => 44
  | .SRTO_MINVERSION => 45 | .SRTO_STREAMID => 46 | .SRTO_CONGESTION => 47
  | .SRTO_MESSAGEAPI => 48 | .SRTO_PAYLOADSIZE => 49 | .SRTO_TRANSTYPE => 50
  | .SRTO_KMREFRESHRATE => 51 | .SRTO_KMPREANNOUNCE => 52 | .SRTO_ENFORCEDENCRYPTION => 53
  | .SRTO_IPV6ONLY => 54 | .SRTO_PEERIDLETIMEO => 55 | .SRTO_BINDTODEVICE => 56
  | .SRTO_GROUPCONNECT => 57 | .SRTO_GROUPMINSTABLETIMEO => 58 | .SRTO_PACKETFILTER => 60
  | .SRTO_RETRANSMITALGO => 61 | .SRTO_E_SIZE => 62

inductive SockOptType where
  | int32_t | int64_t | bool | string | linger
  deriving DecidableEq, Repr

/-- Whether an option is read, written, or both. -/
inductive Dir where
  | R | W | RW
  deriving DecidableEq, Repr

/-- The values an option may have, or the lengths if they are strings. -/
inductive Range where
  | any
  | atLeast (lo : ℤ)
  | between (lo hi : ℤ)
  deriving DecidableEq, Repr

def Range.Contains : Range → ℤ → Prop
  | .any, _ => True
  | .atLeast lo, x => lo ≤ x
  | .between lo hi, x => lo ≤ x ∧ x ≤ hi

instance : (r : Range) → (x : ℤ) → Decidable (r.Contains x)
  | .any, _ => isTrue trivial
  | .atLeast lo, x => inferInstanceAs (Decidable (lo ≤ x))
  | .between lo hi, x => inferInstanceAs (Decidable (lo ≤ x ∧ x ≤ hi))

structure SockOptDetail where
  opt : SRTSockOpt
  type : SockOptType
  range : Range
  dir : Dir
  deriving DecidableEq, Repr

def SRTSockOptsDetalized : List SockOptDetail :=
  [⟨.SRTO_BINDTODEVICE, .string, .any, .RW⟩,
    ⟨.SRTO_CONGESTION, .string, .any, .W⟩,
    ⟨.SRTO_CONNTIMEO, .int32_t, .atLeast 0, .W⟩,
    ⟨.SRTO_DRIFTTRACER, .bool, .any, .RW⟩,
    ⟨.SRTO_ENFORCEDENCRYPTION, .bool, .any, .W⟩,
    ⟨.SRTO_EVENT, .int32_t, .any, .R⟩,
    ⟨.SRTO_FC, .int32_t, .atLeast 32, .RW⟩,
    ⟨.SRTO_INPUTBW, .int64_t, .atLeast 0, .RW⟩,
    ⟨.SRTO_IPTOS, .int32_t, .between 0 255, .RW⟩,
    ⟨.SRTO_IPTTL, .int32_t, .between 1 255, .RW⟩,
    ⟨.SRTO_IPV6ONLY, .int32_t, .between (-1) 1, .RW⟩,
    ⟨.SRTO_ISN, .int32_t, .any, .R⟩,
    ⟨.SRTO_KMPREANNOUNCE, .int32_t, .atLeast 0, .RW⟩,
    ⟨.SRTO_KMREFRESHRATE, .int32_t, .atLeast 0, .RW⟩,
    ⟨.SRTO_KMSTATE, .int32_t, .any, .R⟩,
    ⟨.SRTO_LATENCY, .int32_t, .atLeast 0, .RW⟩,
    ⟨.SRTO_LINGER, .linger, .atLeast 0, .RW⟩,
    ⟨.SRTO_LOSSMAXTTL, .int32_t, .atLeast 0, .RW⟩,
    ⟨.SRTO_MAXBW, .int64_t, .atLeast (-1), .RW⟩,
    ⟨.SRTO_MESSAGEAPI, .bool, .any, .W⟩,
    ⟨.SRTO_MININPUTBW, .int64_t, .atLeast 0, .RW⟩,
    ⟨.SRTO_MINVERSION, .int32_t, .any, .RW⟩,
    ⟨.SRTO_MSS, .int32_t, .atLeast 76, .RW⟩,
    ⟨.SRTO_NAKREPORT, .bool, .any, .RW⟩,
    ⟨.SRTO_OHEADBW, .int32_t, .between 5 100, .RW⟩,
    ⟨.SRTO_PACKETFILTER, .string, .between 0 512, .RW⟩,
    ⟨.SRTO_PASSPHRASE, .string, .between 10 79, .W⟩,
    ⟨.SRTO_PAYLOADSIZE, .int32_t, .atLeast 0, .W⟩,
    ⟨.SRTO_PBKEYLEN, .int32_t, .any, .RW⟩,
    ⟨.SRTO_PEERIDLETIMEO, .int32_t, .atLeast 0, .RW⟩,
    ⟨.SRTO_PEERLATENCY, .int32_t, .atLeast 0, .RW⟩,
    ⟨.SRTO_PEERVERSION, .int32_t, .any, .R⟩,
    ⟨.SRTO_RCVBUF, .int32_t, .any, .RW⟩,
    ⟨.SRTO_RCVDATA, .int32_t, .any, .R⟩,
    ⟨.SRTO_RCVKMSTATE, .int32_t, .any, .R⟩,
    ⟨.SRTO_RCVLATENCY, .int32_t, .atLeast 0, .RW⟩,
    ⟨.SRTO_RCVSYN, .bool, .any, .RW⟩,
    ⟨.SRTO_RCVTIMEO, .int32_t, .atLeast (-1), .RW⟩,
    ⟨.SRTO_RENDEZVOUS, .bool, .any, .RW⟩,
    ⟨.SRTO_RETRANSMITALGO, .int32_t, .between 0 1, .RW⟩,
    ⟨.SRTO_REUSEADDR, .bool, .any, .RW⟩,
    ⟨.SRTO_SENDER, .bool, .any, .W⟩,
    ⟨.SRTO_SNDBUF, .int32_t, .any, .RW⟩,
    ⟨.SRTO_SNDDATA, .int32_t, .any, .R⟩,
    ⟨.SRTO_SNDDROPDELAY, .int32_t, .atLeast (-1), .W⟩,
    ⟨.SRTO_SNDKMSTATE, .int32_t, .any, .R⟩,
    ⟨.SRTO_SNDSYN, .bool, .any, .RW⟩,
    ⟨.SRTO_SNDTIMEO, .int32_t, .atLeast (-1), .RW⟩,
    ⟨.SRTO_STATE, .int32_t, .any, .R⟩,
    ⟨.SRTO_STREAMID, .string, .between 0 512, .RW⟩,
    ⟨.SRTO_TLPKTDROP, .bool, .any, .RW⟩,
    ⟨.SRTO_TRANSTYPE, .int32_t, .any, .W⟩,
    ⟨.SRTO_TSBPDMODE, .bool, .any, .W⟩,
    ⟨.SRTO_UDP_RCVBUF, .int32_t, .any, .RW⟩,
    ⟨.SRTO_UDP_SNDBUF, .int32_t, .any, .RW⟩,
    ⟨.SRTO_VERSION, .int32_t, .any, .R⟩]

inductive SRTSockOptValue where
  | boolean (b : Bool)
  | number (n : ℤ)
  | string (s : JSString)
  deriving DecidableEq, Repr

def SRTSockOptValue.toJS : SRTSockOptValue → JSValue
  | .boolean b => .boolean b
  | .number n => .number n
  | .string s => .string s

def SRTSockOptValue.toReturn : SRTSockOptValue → ReturnValue
  | .boolean b => .boolean b
  | .number n => .number n
  | .string s => .string s

/-! ## libsrt -/

/-- `srt_setsockflag` with the bytes it is given, and `srt_getsockflag` with those it writes to
a variable of the given size, each with its result; and what such a variable holds before. -/
structure OptionLib (σ : Type*) where
  setsockflag : σ → ℤ → ℤ → Bytes → σ × ℤ
  getsockflag : σ → ℤ → ℤ → ℕ → σ × ℤ × Bytes
  getlasterrorStr : σ → JSString
  uninitialised : σ → ℕ → Bytes

variable {σ : Type*}

/-! ## node-srt.cc -/

def stdString (s : JSString) : Bytes := (chars s).flatMap utf8

def fromCharArray (optValue : Bytes) : JSString :=
  (decodeUtf8 (optValue.takeWhile (· ≠ 0))).flatMap units

def sizeofInt : ℕ := 4

def OptionLib.setOrThrow (lib : OptionLib σ) (n : σ) (socketId option : ℤ) (optValue : Bytes) :
    σ × Outcome :=
  let r := lib.setsockflag n socketId option optValue
  if r.2 = SRT_ERROR then (r.1, .error ⟨lib.getlasterrorStr r.1⟩) else (r.1, .ok (.number r.2))

def OptionLib.setSockFlag (lib : OptionLib σ) (n : σ) (socketId option : ℤ) :
    JSValue → σ × Outcome
  | .number v => lib.setOrThrow n socketId option (toBytes sizeofInt v)
  | .boolean v => lib.setOrThrow n socketId option [if v then 1 else 0]
  | .string v => lib.setOrThrow n socketId option (stdString v)
  | _ => (n, .error ⟨ascii "Unexpected argument type for srt_setsockflag"⟩)

inductive FlagCase where
  | int | int64 | bool | string | writeOnly
  deriving DecidableEq, Repr

def intFlags : List SRTSockOpt :=
  [.SRTO_CONNTIMEO, .SRTO_EVENT, .SRTO_FC, .SRTO_IPTOS, .SRTO_IPTTL, .SRTO_IPV6ONLY, .SRTO_ISN,
    .SRTO_KMPREANNOUNCE, .SRTO_KMREFRESHRATE, .SRTO_KMSTATE, .SRTO_LATENCY, .SRTO_LOSSMAXTTL,
    .SRTO_MINVERSION, .SRTO_MSS, .SRTO_OHEADBW, .SRTO_PAYLOADSIZE, .SRTO_PBKEYLEN,
    .SRTO_PEERIDLETIMEO, .SRTO_PEERLATENCY, .SRTO_PEERVERSION, .SRTO_RCVBUF, .SRTO_RCVDATA,
    .SRTO_RCVKMSTATE, .SRTO_RCVLATENCY, .SRTO_RCVTIMEO, .SRTO_RETRANSMITALGO, .SRTO_SNDBUF,
    .SRTO_SNDDATA, .SRTO_SNDDROPDELAY, .SRTO_SNDKMSTATE, .SRTO_SNDTIMEO, .SRTO_STATE,
    .SRTO_UDP_RCVBUF, .SRTO_UDP_SNDBUF, .SRTO_VERSION]

def int64Flags : List SRTSockOpt := [.SRTO_INPUTBW, .SRTO_MAXBW, .SRTO_MININPUTBW]

def boolFlags : List SRTSockOpt :=
  [.SRTO_DRIFTTRACER, .SRTO_ENFORCEDENCRYPTION, .SRTO_MESSAGEAPI, .SRTO_NAKREPORT, .SRTO_RCVSYN,
    .SRTO_RENDEZVOUS, .SRTO_REUSEADDR, .SRTO_SENDER, .SRTO_SNDSYN, .SRTO_TLPKTDROP,
    .SRTO_TSBPDMODE]

def stringFlags : List SRTSockOpt :=
  [.SRTO_BINDTODEVICE, .SRTO_CONGESTION, .SRTO_PACKETFILTER, .SRTO_STREAMID]

def writeOnlyFlags : List SRTSockOpt :=
  [.SRTO_GROUPCONNECT, .SRTO_GROUPMINSTABLETIMEO, .SRTO_PASSPHRASE, .SRTO_TRANSTYPE]

def flagCase (optName : ℤ) : Option FlagCase :=
  if optName ∈ intFlags.map SRTSockOpt.value then some .int
  else if optName ∈ int64Flags.map SRTSockOpt.value then some .int64
  else if optName ∈ boolFlags.map SRTSockOpt.value then some .bool
  else if optName ∈ stringFlags.map SRTSockOpt.value then some .string
  else if optName ∈ writeOnlyFlags.map SRTSockOpt.value then some .writeOnly
  else none

def OptionLib.getOrThrow (lib : OptionLib σ) (n : σ) (socketId option : ℤ) (optSize : ℕ)
    (returnVal : Bytes → ReturnValue) : σ × Outcome :=
  let r := lib.getsockflag n socketId option optSize
  let optValue := (r.2.2 ++ (lib.uninitialised n optSize).drop r.2.2.length).take optSize
  if r.2.1 = SRT_ERROR then (r.1, .error ⟨lib.getlasterrorStr r.1⟩)
  else (r.1, .ok (returnVal optValue))

/-- In the last two cases the last error of libsrt is thrown as well, when the first error is
pending already, which ends the process. Only the first error is kept here. -/
def OptionLib.getSockFlag (lib : OptionLib σ) (n : σ) (socketId option : ℤ) : σ × Outcome :=
  match flagCase option with
  | some .int => lib.getOrThrow n socketId option sizeofInt fun b => .number (ofBytes b)
  | some .int64 => lib.getOrThrow n socketId option 8 fun b => .number (ofBytes b)
  | some .bool => lib.getOrThrow n socketId option 1 fun b => .boolean (b != [0])
  | some .string => lib.getOrThrow n socketId option 512 fun b => .string (fromCharArray b)
  | some .writeOnly => (n, .error ⟨ascii "getSockFlag was called on a write-only option."⟩)
  | none => (n, .error ⟨ascii "SOCKOPT not implemented yet"⟩)

/-! ## What a flag is set to is what is got -/

/-- A value of the declared type in the declared range. Integers of 64 bits go to what a
JavaScript number holds exactly, strings to 512 bytes. -/
def SockOptDetail.Declares (d : SockOptDetail) : SRTSockOptValue → Prop
  | .boolean _ => d.type = .bool
  | .number v => d.range.Contains v ∧
      (d.type = .int32_t ∧ -2 ^ 31 ≤ v ∧ v < 2 ^ 31 ∨ d.type = .int64_t ∧ |v| ≤ 2 ^ 53)
  | .string v => d.type = .string ∧ (stdString v).length ≤ 512 ∧
      d.range.Contains (stdString v).length

/-- The bytes of such a value, with the width of the type. -/
def SockOptDetail.Accepts (d : SockOptDetail) (optValue : Bytes) : Prop :=
  match d.type with
  | .int32_t => optValue.length = 4 ∧ d.range.Contains (ofBytes optValue)
  | .int64_t => optValue.length = 8 ∧ d.range.Contains (ofBytes optValue)
  | .bool => optValue = [0] ∨ optValue = [1]
  | .string => optValue.length ≤ 512 ∧ d.range.Contains optValue.length
  | .linger => False

instance (d : SockOptDetail) (optValue : Bytes) : Decidable (d.Accepts optValue) := by
  unfold SockOptDetail.Accepts
  cases d.type <;> infer_instance

/-- How a stored value is written back: a string with its NUL. -/
def SockOptDetail.written (d : SockOptDetail) (optValue : Bytes) : Bytes :=
  if d.type = .string then optValue ++ [0] else optValue

/-- The documented behaviour: a value that is given with the width of its type is stored, and
written back if the variable has room for it; integers of another width are refused. -/
structure OptionLib.Keeps (lib : OptionLib σ) : Prop where
  accepts : ∀ n u, ∀ d ∈ SRTSockOptsDetalized, d.dir = .RW → ∀ b, d.Accepts b →
    (lib.setsockflag n u d.opt.value b).2 ≠ SRT_ERROR
  returns : ∀ n u, ∀ d ∈ SRTSockOptsDetalized, d.dir = .RW → ∀ b, d.Accepts b → ∀ optlen,
    (d.written b).length ≤ optlen →
    (lib.getsockflag (lib.setsockflag n u d.opt.value b).1 u d.opt.value optlen).2.1 ≠ SRT_ERROR ∧
      (lib.getsockflag (lib.setsockflag n u d.opt.value b).1 u d.opt.value optlen).2.2 =
        d.written b
  short : ∀ n u, ∀ d ∈ SRTSockOptsDetalized, d.dir = .RW → ∀ b, d.Accepts b → ∀ optlen,
    optlen < (d.written b).length →
    (lib.getsockflag (lib.setsockflag n u d.opt.value b).1 u d.opt.value optlen).2.1 = SRT_ERROR
  width : ∀ n u, ∀ d ∈ SRTSockOptsDetalized, d.dir = .RW → d.type = .int64_t → ∀ b,
    b.length ≠ 8 → (lib.setsockflag n u d.opt.value b).2 = SRT_ERROR

/-- `setSockFlag` succeeds, and `getSockFlag` then returns the value. -/
def Undoes (lib : OptionLib σ) (n : σ) (socketId option : ℤ) (v : SRTSockOptValue) : Prop :=
  let r := lib.setSockFlag n socketId option v.toJS
  (∃ result, r.2 = .ok (.number result)) ∧
    (lib.getSockFlag r.1 socketId option).2 = .ok v.toReturn

/-- A text that a `char[512]` holds. -/
def SRTSockOptValue.FitsChars : SRTSockOptValue → Prop
  | .string v => WellFormed v = true ∧ 0 ∉ v ∧ (stdString v).length < 512
  | .boolean _ | .number _ => True

def SockOptType.flagCase : SockOptType → Option FlagCase
  | .int32_t => some .int
  | .int64_t => some .int64
  | .bool => some .bool
  | .string => some .string
  | .linger => none

theorem flagCase_of_mem : ∀ d ∈ SRTSockOptsDetalized, d.dir = .RW →
    flagCase d.opt.value = d.type.flagCase := by
  decide

theorem fromCharArray_stdString (v : JSString) (rest : Bytes) :
    fromCharArray (stdString v ++ 0 :: rest) =
      ((chars v).takeWhile (· ≠ '\x00')).flatMap units := by
  rw [fromCharArray, stdString, takeWhile_flatMap_utf8, decodeUtf8_flatMap]

/-- A string comes back whole if it has no surrogate without a partner and no NUL. -/
theorem fromCharArray_eq_iff {v : JSString} {rest : Bytes} :
    fromCharArray (stdString v ++ 0 :: rest) = v ↔ WellFormed v = true ∧ 0 ∉ v := by
  rw [fromCharArray_stdString]
  constructor
  · intro h
    have hw : WellFormed v = true := h ▸ wellFormed_flatMap_units _
    refine ⟨hw, fun hz => ?_⟩
    rw [← h, zero_mem_flatMap_units] at hz
    simpa using List.mem_takeWhile_imp hz
  · rintro ⟨hw, hz⟩
    have hz : '\x00' ∉ chars v := by
      rwa [← flatMap_units_chars hw, zero_mem_flatMap_units] at hz
    rw [List.takeWhile_eq_self_iff.mpr fun c hc => by simpa using ne_of_mem_of_not_mem hc hz]
    exact flatMap_units_chars hw

namespace OptionLib.Keeps

variable {lib : OptionLib σ} {d : SockOptDetail} {b : Bytes} {v : SRTSockOptValue} {optSize : ℕ}
  {returnVal : Bytes → ReturnValue}

/-- A value of the width of its type is set. What is got are its bytes, with what was in the
variable after them. -/
theorem undoes_iff (hl : lib.Keeps) (n : σ) (u : ℤ) (hd : d ∈ SRTSockOptsDetalized)
    (hrw : d.dir = .RW) (hb : d.Accepts b)
    (hset : ∀ m, lib.setSockFlag m u d.opt.value v.toJS = lib.setOrThrow m u d.opt.value b)
    (hget : ∀ m, lib.getSockFlag m u d.opt.value =
      lib.getOrThrow m u d.opt.value optSize returnVal)
    (hroom : (d.written b).length ≤ optSize) :
    ∃ rest : Bytes, (d.written b).length + rest.length ≤ optSize ∧
      (Undoes lib n u d.opt.value v ↔ returnVal (d.written b ++ rest) = v.toReturn) := by
  have hacc := hl.accepts n u d hd hrw b hb
  obtain ⟨hok, hwritten⟩ := hl.returns n u d hd hrw b hb optSize hroom
  generalize hm : (lib.setsockflag n u d.opt.value b).1 = m at *
  refine ⟨((lib.uninitialised m optSize).drop (d.written b).length).take
    (optSize - (d.written b).length), ?_, ?_⟩
  · have hlen := List.length_take_le (optSize - (d.written b).length)
      ((lib.uninitialised m optSize).drop (d.written b).length)
    omega
  · simp only [Undoes, hset, OptionLib.setOrThrow, if_neg hacc, hm, hget, OptionLib.getOrThrow,
      if_neg hok, hwritten, List.take_append, List.take_of_length_le hroom, Except.ok.injEq,
      ReturnValue.number.injEq, exists_eq', true_and]

theorem undoes_iff_full (hl : lib.Keeps) (n : σ) (u : ℤ) (hd : d ∈ SRTSockOptsDetalized)
    (hrw : d.dir = .RW) (hb : d.Accepts b)
    (hset : ∀ m, lib.setSockFlag m u d.opt.value v.toJS = lib.setOrThrow m u d.opt.value b)
    (hget : ∀ m, lib.getSockFlag m u d.opt.value =
      lib.getOrThrow m u d.opt.value optSize returnVal)
    (hfull : (d.written b).length = optSize) :
    Undoes lib n u d.opt.value v ↔ returnVal (d.written b) = v.toReturn := by
  obtain ⟨rest, hrest, hiff⟩ := hl.undoes_iff n u hd hrw hb hset hget hfull.le
  have hnil : rest = [] := List.eq_nil_of_length_eq_zero (by omega)
  rw [hiff, hnil, List.append_nil]

theorem not_undoes_of_short (hl : lib.Keeps) (n : σ) (u : ℤ) (hd : d ∈ SRTSockOptsDetalized)
    (hrw : d.dir = .RW) (hb : d.Accepts b)
    (hset : ∀ m, lib.setSockFlag m u d.opt.value v.toJS = lib.setOrThrow m u d.opt.value b)
    (hget : ∀ m, lib.getSockFlag m u d.opt.value =
      lib.getOrThrow m u d.opt.value optSize returnVal)
    (hshort : optSize < (d.written b).length) : ¬ Undoes lib n u d.opt.value v := by
  have hacc := hl.accepts n u d hd hrw b hb
  have herr := hl.short n u d hd hrw b hb optSize hshort
  simp [Undoes, hset, OptionLib.setOrThrow, if_neg hacc, hget, OptionLib.getOrThrow, herr]

/-! One lemma for each type of value. -/

theorem undoes_boolean (hl : lib.Keeps) (n : σ) (u : ℤ) (hd : d ∈ SRTSockOptsDetalized)
    (hrw : d.dir = .RW) (ht : d.type = .bool) (x : Bool) :
    Undoes lib n u d.opt.value (.boolean x) := by
  have hcase := flagCase_of_mem d hd hrw
  have hget : ∀ m, lib.getSockFlag m u d.opt.value =
      lib.getOrThrow m u d.opt.value 1 fun b => .boolean (b != [0]) := fun m => by
    simp only [OptionLib.getSockFlag, hcase, ht, SockOptType.flagCase]
  have hb : d.Accepts [if x then 1 else 0] := by
    simp only [SockOptDetail.Accepts, ht]
    cases x
    · exact Or.inl rfl
    · exact Or.inr rfl
  have hw : d.written [if x then 1 else 0] = [if x then 1 else 0] := by
    simp [SockOptDetail.written, ht]
  rw [hl.undoes_iff_full n u hd hrw hb (v := .boolean x) (fun m => rfl) hget (by rw [hw]; rfl), hw]
  cases x <;> rfl

theorem undoes_number (hl : lib.Keeps) (n : σ) (u : ℤ) (hd : d ∈ SRTSockOptsDetalized)
    (hrw : d.dir = .RW) (ht : d.type = .int32_t) {x : ℤ} (hx : -2 ^ 31 ≤ x ∧ x < 2 ^ 31)
    (hr : d.range.Contains x) : Undoes lib n u d.opt.value (.number x) := by
  have hcase := flagCase_of_mem d hd hrw
  have hget : ∀ m, lib.getSockFlag m u d.opt.value =
      lib.getOrThrow m u d.opt.value sizeofInt fun b => .number (ofBytes b) := fun m => by
    simp only [OptionLib.getSockFlag, hcase, ht, SockOptType.flagCase]
  have hval : ofBytes (toBytes sizeofInt x) = x :=
    ofBytes_toBytes_of_fits (by simp only [sizeofInt]; omega) (by simp only [sizeofInt]; omega)
  have hb : d.Accepts (toBytes sizeofInt x) := by
    simp only [SockOptDetail.Accepts, ht, hval, length_toBytes]
    exact ⟨rfl, hr⟩
  have hw : d.written (toBytes sizeofInt x) = toBytes sizeofInt x := by
    simp [SockOptDetail.written, ht]
  rw [hl.undoes_iff_full n u hd hrw hb (v := .number x) (fun m => rfl) hget
    (by rw [hw, length_toBytes]), hw, hval]
  rfl

theorem not_undoes_number (hl : lib.Keeps) (n : σ) (u : ℤ) (hd : d ∈ SRTSockOptsDetalized)
    (hrw : d.dir = .RW) (ht : d.type = .int64_t) (x : ℤ) :
    ¬ Undoes lib n u d.opt.value (.number x) := by
  have hfail := hl.width n u d hd hrw ht (toBytes sizeofInt x) (by simp [sizeofInt])
  simp [Undoes, SRTSockOptValue.toJS, OptionLib.setSockFlag, OptionLib.setOrThrow, hfail]

theorem undoes_string_iff (hl : lib.Keeps) (n : σ) (u : ℤ) (hd : d ∈ SRTSockOptsDetalized)
    (hrw : d.dir = .RW) (ht : d.type = .string) {x : JSString} (hx : (stdString x).length ≤ 512)
    (hr : d.range.Contains (stdString x).length) :
    Undoes lib n u d.opt.value (.string x) ↔
      WellFormed x = true ∧ 0 ∉ x ∧ (stdString x).length < 512 := by
  have hcase := flagCase_of_mem d hd hrw
  have hget : ∀ m, lib.getSockFlag m u d.opt.value =
      lib.getOrThrow m u d.opt.value 512 fun b => .string (fromCharArray b) := fun m => by
    simp only [OptionLib.getSockFlag, hcase, ht, SockOptType.flagCase]
  have hb : d.Accepts (stdString x) := by
    simp only [SockOptDetail.Accepts, ht]
    exact ⟨hx, hr⟩
  have hw : d.written (stdString x) = stdString x ++ [0] := by simp [SockOptDetail.written, ht]
  by_cases hroom : (stdString x).length < 512
  · obtain ⟨rest, -, hiff⟩ := hl.undoes_iff n u hd hrw hb (v := .string x) (fun m => rfl) hget
      (by rw [hw, List.length_append, List.length_singleton]; omega)
    rw [hiff, hw, List.append_assoc, List.singleton_append]
    simp only [SRTSockOptValue.toReturn, ReturnValue.string.injEq, fromCharArray_eq_iff, hroom,
      and_true]
  · have hshort := hl.not_undoes_of_short n u hd hrw hb (v := .string x) (fun m => rfl) hget
      (by rw [hw, List.length_append, List.length_singleton]; omega)
    exact iff_of_false hshort fun h => hroom h.2.2

end OptionLib.Keeps

/-- What a flag is set to is what is got, unless it has 64 bits or does not fit into the
`char[512]` of the getter. -/
theorem getSockFlag_undoes_setSockFlag {lib : OptionLib σ} (hl : lib.Keeps) (n : σ) (u : ℤ)
    {d : SockOptDetail} (hd : d ∈ SRTSockOptsDetalized) (hrw : d.dir = .RW) {v : SRTSockOptValue}
    (hv : d.Declares v) :
    Undoes lib n u d.opt.value v ↔ d.type ≠ .int64_t ∧ v.FitsChars := by
  cases v with
  | boolean x =>
    have ht : d.type = .bool := hv
    exact iff_of_true (hl.undoes_boolean n u hd hrw ht x) ⟨by simp [ht], trivial⟩
  | number x =>
    obtain ⟨hr, ⟨ht, hx⟩ | ⟨ht, -⟩⟩ := hv
    · exact iff_of_true (hl.undoes_number n u hd hrw ht hx hr) ⟨by simp [ht], trivial⟩
    · exact iff_of_false (hl.not_undoes_number n u hd hrw ht x) fun h => h.1 ht
  | string x =>
    obtain ⟨ht, hx, hr⟩ := hv
    rw [hl.undoes_string_iff n u hd hrw ht hx hr]
    simp [ht, SRTSockOptValue.FitsChars]

/-! ## A library that keeps the values in a table -/

def findOption (optName : ℤ) : Option SockOptDetail :=
  SRTSockOptsDetalized.find? fun d => d.opt.value = optName

def optionTable : OptionLib (List ((ℤ × ℤ) × Bytes)) where
  setsockflag t u optName optValue :=
    match findOption optName with
    | some d => if d.Accepts optValue then (((u, optName), optValue) :: t, 0) else (t, SRT_ERROR)
    | none => (t, SRT_ERROR)
  getsockflag t u optName optlen :=
    match findOption optName, t.lookup (u, optName) with
    | some d, some b =>
      if (d.written b).length ≤ optlen then (t, 0, d.written b) else (t, SRT_ERROR, [])
    | _, _ => (t, SRT_ERROR, [])
  getlasterrorStr _ := ascii "Operation not supported: Bad parameters"
  uninitialised _ size := List.replicate size 0xAA

theorem findOption_of_mem : ∀ d ∈ SRTSockOptsDetalized, findOption d.opt.value = some d := by
  decide

theorem optionTable_keeps : optionTable.Keeps where
  accepts n u d hd _ b hb := by
    simp [optionTable, findOption_of_mem d hd, hb, SRT_ERROR]
  returns n u d hd _ b hb optlen hroom := by
    simp [optionTable, findOption_of_mem d hd, hb, SRT_ERROR, hroom]
  short n u d hd _ b hb optlen hshort := by
    simp [optionTable, findOption_of_mem d hd, hb, hshort.not_ge]
  width n u d hd _ ht b hb := by
    have hno : ¬ d.Accepts b := by
      simp only [SockOptDetail.Accepts, ht]
      exact fun h => hb h.1
    simp [optionTable, findOption_of_mem d hd, hno]

theorem getSockFlag_undoes_setSockFlag_streamId :
    Undoes optionTable [] 1 SRTSockOpt.SRTO_STREAMID.value (.string (ascii "STREAMID")) :=
  (getSockFlag_undoes_setSockFlag optionTable_keeps [] 1
    (d := ⟨.SRTO_STREAMID, .string, .between 0 512, .RW⟩) (by decide) rfl
    (v := .string (ascii "STREAMID")) ⟨rfl, by decide, by decide⟩).mpr
    ⟨by decide, by decide, by decide, by decide⟩

/-- A maximum bandwidth of a million bytes per second is refused. -/
theorem maxBandwidth_is_not_set :
    ¬ ∀ lib : OptionLib (List ((ℤ × ℤ) × Bytes)), lib.Keeps → ∀ n u,
      ∀ d ∈ SRTSockOptsDetalized, d.dir = .RW → ∀ v, d.Declares v →
        Undoes lib n u d.opt.value v := by
  intro h
  have hundoes := h optionTable optionTable_keeps [] 1 ⟨.SRTO_MAXBW, .int64_t, .atLeast (-1), .RW⟩
    (by decide) rfl (.number 1000000) ⟨by decide, Or.inr ⟨rfl, by decide⟩⟩
  obtain ⟨result, hok⟩ := hundoes.1
  have herr : (optionTable.setSockFlag [] 1 SRTSockOpt.SRTO_MAXBW.value
      (.number 1000000)).2.toOption = none := by decide
  have hsome : (optionTable.setSockFlag [] 1 SRTSockOpt.SRTO_MAXBW.value
      (.number 1000000)).2.toOption = some (.number result) := congrArg Except.toOption hok
  cases herr.symm.trans hsome

end SockFlags
