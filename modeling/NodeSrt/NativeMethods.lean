import NodeSrt.NativeSrt
import NodeSrt.SockFlags

/-! # The other methods of the native object

Reading, writing, options, the log level and statistics, which `NativeSrt` leaves to its
parameter `other`. With them every method is there, and it can be said which of them give
`SRT_ERROR` without throwing. -/
namespace NativeSrt

open AsyncValues
open AsyncApi
open Encodings
open SockFlags

/-- The library functions behind these methods. `mistyped` is the first error of a conversion when
an argument has another type, or of a call without the argument; `getSockFlag` throws another
after it, which ends the process. -/
structure Methods (σ : Type*) extends OptionLib σ where
  recvmsg : σ → ℤ → ℕ → σ × ℤ × Bytes
  sendmsg2 : σ → ℤ → Bytes → σ × ℤ
  setloglevel : σ → ℤ → σ
  bstats : σ → ℤ → Bool → σ × ℤ × List (String × ℚ)
  mistyped : σ → AsyncSRTWorkerPost → σ × NativeError

variable {σ ω κ : Type*}

namespace Methods

def throwLast (lib : Methods σ) (n : σ) (text : JSString) : σ × Outcome :=
  (n, .error ⟨text ++ lib.getlasterrorStr n⟩)

/-- `Read`, with a zeroed buffer of `uint32_t(chunkSize)` bytes. -/
def read (lib : Methods σ) (n : σ) (socketId chunkSize : ℤ) : σ × Outcome :=
  let bufferSize := (chunkSize % 2 ^ 32).toNat
  let r := lib.recvmsg n socketId bufferSize
  if r.2.1 = SRT_ERROR then lib.throwLast r.1 (ascii "srt_recvmsg: ")
  else (r.1, .ok (.bytes ((r.2.2 ++ List.replicate bufferSize 0).take r.2.1.toNat)))

def write (lib : Methods σ) (n : σ) (socketId : ℤ) (chunk : Bytes) : σ × Outcome :=
  let r := lib.sendmsg2 n socketId chunk
  if r.2 = SRT_ERROR then lib.throwLast r.1 (ascii "srt_sendmsg2: ")
  else (r.1, .ok (.number r.2))

def int32Value (n : ℤ) : ℤ := n.bmod (2 ^ 32)

def LogLevel (logLevel : ℤ) : Prop := 0 ≤ int32Value logLevel ∧ int32Value logLevel ≤ 7

instance (logLevel : ℤ) : Decidable (LogLevel logLevel) := inferInstanceAs (Decidable (_ ∧ _))

def setLogLevel (lib : Methods σ) (n : σ) (logLevel : ℤ) : σ × Outcome :=
  if LogLevel logLevel then (lib.setloglevel n (int32Value logLevel), .ok (.number 0))
  else (n, .ok (.number SRT_ERROR))

def stats (lib : Methods σ) (n : σ) (socketId : ℤ) (clear : Bool) : σ × Outcome :=
  let r := lib.bstats n socketId clear
  if r.2.1 = SRT_ERROR then lib.throwLast r.1 [] else (r.1, .ok (.stats r.2.2))

def call (lib : Methods σ) (n : σ) (post : AsyncSRTWorkerPost) : σ × Outcome :=
  match post.method, post.args with
  | .read, [.number socketId, .number chunkSize] => lib.read n socketId chunkSize
  | .write, [.number socketId, .bytes chunk] => lib.write n socketId chunk.data
  | .setSockFlag, [.number socketId, .number option, value] =>
    lib.setSockFlag n socketId option value
  | .getSockFlag, [.number socketId, .number option] => lib.getSockFlag n socketId option
  | .setLogLevel, [.number logLevel] => lib.setLogLevel n logLevel
  | .stats, [.number socketId, .boolean clear] => lib.stats n socketId clear
  | _, _ => ((lib.mistyped n post).1, .error (lib.mistyped n post).2)

end Methods

def Libsrt.withMethods (lib : Libsrt σ ω) (more : Methods σ) : Libsrt σ ω :=
  { lib with other := more.call }

/-! ## Which calls give SRT_ERROR and do not throw -/

/-- A variable of this size is read with success and holds -1. -/
def Methods.ReadsMinusOne (lib : Methods σ) (n : σ) (socketId option : ℤ) (optSize : ℕ) : Prop :=
  let r := lib.getsockflag n socketId option optSize
  r.2.1 ≠ SRT_ERROR ∧
    ofBytes ((r.2.2 ++ (lib.uninitialised n optSize).drop r.2.2.length).take optSize) = -1

/-- A log level outside 0 to 7, or an integer option with the value -1. -/
def Methods.Silent (lib : Methods σ) (n : σ) (post : AsyncSRTWorkerPost) : Prop :=
  match post.method, post.args with
  | .setLogLevel, [.number logLevel] => ¬ Methods.LogLevel logLevel
  | .getSockFlag, [.number socketId, .number option] =>
    flagCase option = some .int ∧ lib.ReadsMinusOne n socketId option sizeofInt ∨
      flagCase option = some .int64 ∧ lib.ReadsMinusOne n socketId option 8
  | _, _ => False

/-- `srt_getsockstate` gives one of its states. -/
def Libsrt.States (lib : Libsrt σ ω) : Prop := ∀ n u, lib.getsockstate n u ≠ SRT_ERROR

section
variable {lib : Libsrt σ ω} {more : Methods σ} {n : σ}

theorem runOrClose_loud (u : ℤ) (c : SrtCall) :
    (lib.runOrClose n u c).2 ≠ .ok (.number SRT_ERROR) := by
  simp only [Libsrt.runOrClose, Libsrt.throwLast]
  split <;> simp_all

theorem runOrThrow_loud (c : SrtCall) {failed : ℤ → Bool} (hf : failed SRT_ERROR = true) :
    (lib.runOrThrow n c failed).2 ≠ .ok (.number SRT_ERROR) := by
  simp only [Libsrt.runOrThrow, Libsrt.throwLast]
  split
  · simp
  · rename_i hr
    intro he
    simp only [Except.ok.injEq, ReturnValue.number.injEq] at he
    exact hr (he ▸ hf)

theorem createSocket_loud (isSender : Bool) :
    (lib.createSocket n isSender).2 ≠ .ok (.number SRT_ERROR) := by
  simp only [Libsrt.createSocket, Libsrt.throwLast]
  split <;> simp_all

theorem setOrThrow_loud (u option : ℤ) (b : Bytes) :
    (more.setOrThrow n u option b).2 ≠ .ok (.number SRT_ERROR) := by
  simp only [OptionLib.setOrThrow]
  split <;> simp_all

theorem getOrThrow_silent_iff (u option : ℤ) (optSize : ℕ) (returnVal : Bytes → ReturnValue) :
    (more.getOrThrow n u option optSize returnVal).2 = .ok (.number SRT_ERROR) ↔
      (more.getsockflag n u option optSize).2.1 ≠ SRT_ERROR ∧
        returnVal (((more.getsockflag n u option optSize).2.2 ++
          (more.uninitialised n optSize).drop
            (more.getsockflag n u option optSize).2.2.length).take optSize) =
          .number SRT_ERROR := by
  simp only [OptionLib.getOrThrow]
  split <;> simp_all

theorem getSockFlag_silent_iff (u option : ℤ) :
    (more.getSockFlag n u option).2 = .ok (.number SRT_ERROR) ↔
      more.Silent n ⟨.getSockFlag, [.number u, .number option]⟩ := by
  simp only [OptionLib.getSockFlag, Methods.Silent, Methods.ReadsMinusOne]
  cases hcase : flagCase option with
  | none => simp
  | some c =>
    cases c with
    | int | int64 | bool | string =>
      dsimp only
      rw [getOrThrow_silent_iff]
      simp [SRT_ERROR]
    | writeOnly => simp

theorem call_silent_iff (post : AsyncSRTWorkerPost) :
    (more.call n post).2 = .ok (.number SRT_ERROR) ↔ more.Silent n post := by
  obtain ⟨method, args⟩ := post
  unfold Methods.call
  dsimp only
  split
  · simp only [Methods.read, Methods.throwLast, Methods.Silent]
    split <;> simp
  · simp only [Methods.write, Methods.throwLast, Methods.Silent]
    split <;> simp_all
  · simp only [Methods.Silent, iff_false]
    unfold OptionLib.setSockFlag
    split <;> first | exact setOrThrow_loud _ _ _ | simp
  · exact getSockFlag_silent_iff _ _
  · simp only [Methods.setLogLevel, Methods.Silent]
    split <;> simp_all [SRT_ERROR]
  · simp only [Methods.stats, Methods.throwLast, Methods.Silent]
    split <;> simp
  · rename_i hread hwrite hset hget hlevel hstats
    unfold Methods.Silent
    split <;> simp_all

/-- A call of the object that gives `SRT_ERROR` throws, unless it is one of these. -/
theorem native_silent_iff (hs : lib.States) (post : AsyncSRTWorkerPost) :
    ((nodeSRT (lib.withMethods more)).call n post).2 = .ok (.number SRT_ERROR) ↔
      more.Silent n post := by
  obtain ⟨method, args⟩ := post
  have hloud : ∀ {r : σ × Outcome} {m : Method} {as : List JSValue},
      r.2 ≠ .ok (.number SRT_ERROR) → m ≠ .setLogLevel → m ≠ .getSockFlag →
      (r.2 = .ok (.number SRT_ERROR) ↔ more.Silent n ⟨m, as⟩) := by
    intro r m as hr hl hg
    refine iff_of_false hr fun h => ?_
    unfold Methods.Silent at h
    split at h <;> simp_all
  show ((lib.withMethods more).call n _).2 = _ ↔ _
  unfold Libsrt.call
  dsimp only
  split
  · exact hloud (createSocket_loud _) (by simp) (by simp)
  · refine hloud ?_ (by simp) (by simp)
    simp only [Libsrt.bind]
    split
    · simp
    · exact runOrClose_loud _ _
  · exact hloud (runOrClose_loud _ _) (by simp) (by simp)
  · exact hloud (runOrClose_loud _ _) (by simp) (by simp)
  · refine hloud ?_ (by simp) (by simp)
    simp only [Libsrt.accept, Libsrt.throwLast]
    split <;> simp_all
  · exact hloud (runOrThrow_loud _ rfl) (by simp) (by simp)
  · refine hloud (r := (n, _)) ?_ (by simp) (by simp)
    have hstate := hs n
    simpa [Libsrt.withMethods] using hstate _
  · exact hloud (runOrThrow_loud _ rfl) (by simp) (by simp)
  · exact hloud (runOrThrow_loud _ rfl) (by simp) (by simp)
  · exact hloud (by simp [Libsrt.epollUWait]) (by simp) (by simp)
  · exact call_silent_iff _

end

end NativeSrt
